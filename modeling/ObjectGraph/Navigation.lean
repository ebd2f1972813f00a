import ObjectGraph.Builtin
import ObjectGraph.Context

/-!
# Navigation

The single steps of an evaluation: reading and writing a property, an index or a
subscript of a target, and calling a method on it. Host members are reached through
`elevated` only, and every read that comes to null is offered to the null handlers.
-/
namespace ObjectGraph.Navigation

variable {σ : Type} (classes : Registry σ) (ctx : Context σ)

/-- A navigation step: what it comes to is recorded, and a null is offered to the null
handlers. -/
def navigate (step : Step) (result : Run σ EvalError Value) : Run σ EvalError Value := do
  let value ← World.recording (.navigated step) result
  if value.isNull then ctx.nulls.fill ctx.toBindings step else pure value

/-- Reaches a member of a host object under the context's policy. -/
def reach {α : Type} (o : ObjectRef) (member : Member) (property : String)
    (attempt : Attempt σ α) : Run σ EvalError α :=
  elevated ctx.policy ctx.toBindings ⟨.object o, member, property⟩ attempt

def readProperty (o : ObjectRef) (name : String) : Run σ EvalError Value :=
  match (classes o.cls).property? name with
  | some p => reach ctx o (p.member o.cls) name (p.reading o.handle)
  | none => Action.fail (.noSuchMember o.cls.name name)

def propertyOf (source : Value) (name : String) : Run σ EvalError Value :=
  match source with
  | .null => Action.fail (.nullSource "getProperty" name)
  | .map entries => pure (Builtin.entryAt entries name)
  | .object o => readProperty classes ctx o name
  | .array items =>
    if name = "length" ∨ name = "size" then pure (.ofNat items.length)
    else Action.fail (.noSuchMember source.typeName name)
  | .string s =>
    if name = "length" then pure (.ofNat s.length)
    else Action.fail (.noSuchMember source.typeName name)
  | _ => Action.fail (.noSuchMember source.typeName name)

def getProperty (source : Value) (name : String) : Run σ EvalError Value :=
  navigate ctx (.property source (.name name)) (propertyOf classes ctx source name)

/-- A key that is not a string leads to the entry under its text. -/
def keyText : Value → String
  | .string s => s
  | key => key.display

def indexOf (source key : Value) : Run σ EvalError Value :=
  match source with
  | .null => Action.fail (.nullSource "getIndex" key.display)
  | .map entries => pure (Builtin.entryAt entries (keyText key))
  | .object o =>
    match (classes o.cls).indexer with
    | some ix => reach ctx o (ix.member o.cls) indexerName (ix.reading o.handle key)
    | none =>
      match key with
      | .string name => readProperty classes ctx o name
      | _ => Action.fail (.typeError (o.cls.name ++ " has no indexer"))
  | .array items =>
    match key with
    | .integer index => Action.ofExcept (Builtin.itemAt items index)
    | _ => Action.fail (.typeError ("cannot index array with " ++ key.typeName))
  | _ => Action.fail (.typeError ("cannot index " ++ source.typeName ++ " with " ++ key.typeName))

def getIndex (source key : Value) : Run σ EvalError Value :=
  navigate ctx (.property source (.index key)) (indexOf classes ctx source key)

def subscriptOf (source : Value) (s : Subscript) : Except EvalError Value :=
  match source with
  | .null => .error (.nullSource "getIndex" s.display)
  | .array items =>
    if s = .all then .ok (.array items)
    else .ok (((s.position? items.length).bind fun i => items[i]?).getD .null)
  | _ =>
    .error (.typeError
      ("subscript " ++ s.display ++ " requires an array, got " ++ source.typeName))

def getSubscript (source : Value) (s : Subscript) : Run σ EvalError Value :=
  navigate ctx (.property source (.subscript s)) (Action.ofExcept (subscriptOf source s))

def resultOf (source : Value) (name : String) (args : List Value) : Run σ EvalError Value :=
  match source with
  | .null => Action.fail (.nullSource "callMethod" name)
  | .object o =>
    match (classes o.cls).method? name with
    | some m => reach ctx o (m.member o.cls name) name (m.invoking name o.handle args)
    | none => Action.fail (.noSuchMember o.cls.name name)
  | _ => Action.ofExcept (Builtin.call source name args)

def callMethod (source : Value) (name : String) (args : List Value) : Run σ EvalError Value :=
  navigate ctx (.method source name args) (resultOf classes ctx source name args)

/-- Only host objects are written to: through a field of that name or, if there is none,
through a `set_` method with one argument. -/
def writeProperty (target : Value) (name : String) (value : Value) : Run σ EvalError Unit :=
  match target with
  | .null => Action.fail (.nullSource "setProperty" name)
  | .object o =>
    match (classes o.cls).field? name with
    | some f =>
      let member := f.member o.cls name
      reach ctx o member name (f.writing member o.handle value)
    | none =>
      match (classes o.cls).setter? name with
      | some (setter, m) => do
        let _ ← reach ctx o (m.member o.cls setter) name (m.invoking setter o.handle [value])
      | none => Action.fail (.noSuchMember o.cls.name name)
  | _ => Action.fail (.notAssignable ("cannot set '" ++ name ++ "' on " ++ target.typeName))

def setProperty (target : Value) (name : String) (value : Value) : Run σ EvalError Unit := do
  World.note (.assigning target (.name name) value)
  writeProperty classes ctx target name value

def writeIndex (target key value : Value) : Run σ EvalError Unit :=
  match target with
  | .null => Action.fail (.nullSource "setIndex" key.display)
  | .object o =>
    match (classes o.cls).indexer with
    | some ix => reach ctx o (ix.member o.cls) indexerName (ix.writing o.cls o.handle key value)
    | none =>
      match key with
      | .string name => writeProperty classes ctx target name value
      | _ => Action.fail (.notAssignable (o.cls.name ++ " has no indexer"))
  | _ => Action.fail (.notAssignable ("cannot assign an index of " ++ target.typeName))

def setIndex (target key value : Value) : Run σ EvalError Unit := do
  World.note (.assigning target (.index key) value)
  writeIndex classes ctx target key value

end ObjectGraph.Navigation
