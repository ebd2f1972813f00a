import ObjectGraph.Expr.Json
import ObjectGraph.Generation
import ObjectGraph.Value.Json

/-!
# Commands

A command evaluates an expression, or generates its fragment, against plain JSON data.
The expression, the root, the variables and the substitute for null are JSON texts; the
first of them that cannot be read decides the error.
-/
namespace ObjectGraph

inductive CommandError
  | json
  | eval (cause : EvalError)
  | generation (cause : GenerationError)
  | io (reason : String)
  /-- A variable binding that is not a name, an equals sign and a JSON text. -/
  | invalidVariable (binding : String)

/-- The wording, without the details of a JSON error. -/
def CommandError.message : CommandError → String
  | json => "Invalid JSON: "
  | eval cause => "Evaluation error: " ++ cause.message
  | generation cause => "Generation error: " ++ cause.message
  | io reason => "IO error: " ++ reason
  | invalidVariable binding =>
    "Invalid variable binding: '" ++ binding ++ "' (expected name=<json>)"

namespace Command

/-- What both commands work with. -/
structure Task where
  expression : String
  input : Option String
  bindings : List String
  allowAll : Bool

/-- There are no host classes behind JSON data. -/
def noClasses : Registry Unit := fun _ => ClassTable.empty

def readExpr (text : String) : Except CommandError Expr :=
  match Expr.read? text with
  | some e => .ok e
  | none => .error .json

def readValue (text : String) : Except CommandError Value :=
  match Json.read? text with
  | some json => .ok (Value.ofJson json)
  | none => .error .json

/-- Reads a variable binding. -/
def readBinding (binding : String) : Except CommandError (String × Value) :=
  match Text.splitOnce? '=' binding.toList with
  | some (c :: name, json) => do
    let value ← readValue (String.ofList json)
    return (String.ofList (c :: name), value)
  | _ => .error (.invalidVariable binding)

def readBindings : List String → Context Unit → Except CommandError (Context Unit)
  | [], ctx => .ok ctx
  | binding :: bindings, ctx => do
    let (name, value) ← readBinding binding
    readBindings bindings (ctx.setVariable name value)

def readContext (task : Task) : Except CommandError (Context Unit) := do
  let root ← match task.input with
    | some text => readValue text
    | none => pure .null
  readBindings task.bindings
    { Context.new root with policy := (VisibilityPolicy.all task.allowAll).toPolicy }

/-- The value of the expression as JSON. -/
def evaluate (task : Task) (nullDefault : Option String) : Except CommandError Json := do
  let e ← readExpr task.expression
  let ctx ← readContext task
  let ctx ← match nullDefault with
    | some text => do
      let substitute ← readValue text
      pure { ctx with nulls := { ctx.nulls with fallback := some (.constant substitute) } }
    | none => pure ctx
  match (e.value noClasses ctx (World.start ())).1 with
  | .ok value => .ok value.toJson
  | .error cause => .error (.eval cause)

/-- The fragment of the expression, or a routine of that name around it, and the hint
of the fragment. -/
def generate (task : Task) (routine : Option String) :
    Except CommandError (String × Option TypeHint) := do
  let e ← readExpr task.expression
  let ctx ← readContext task
  match e.generateFromRoot noClasses ⟨ctx, World.start ()⟩ with
  | (.ok fragment, after) =>
    let hint := after.context.currentType
    match routine with
    | some name => .ok (Routine.text name fragment.render hint, hint)
    | none => .ok (fragment.render, hint)
  | (.error cause, _) => .error (.generation cause)

end Command
end ObjectGraph
