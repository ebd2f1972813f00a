import ObjectGraph.Expr
import ObjectGraph.Host.ClassTable

/-!
# The world of an evaluation

Host objects and the accessibility of members are shared by all evaluations. The
trail is a record of every navigation step and assignment, every question to the
policy, every elevation and its release, every attempt of host code and every
substitution for null, oldest first. Nothing reads the trail back while an evaluation
runs.
-/
namespace ObjectGraph

/-- What expressions are evaluated against: the root and the named variables. -/
structure Bindings where
  root : Value
  vars : Dict Value

/-- One access: on this target, to this member, under this name. -/
structure Access where
  target : Value
  member : Member
  property : String

/-- What a policy hands out when it prepares an access and takes back after it. -/
inductive Token
  /-- Nothing was changed. -/
  | unchanged
  /-- The member was elevated; a sound policy never says that it was accessible before. -/
  | elevated (wasAccessible : Bool)
  deriving DecidableEq

def Token.isElevated : Token → Bool
  | unchanged => false
  | elevated _ => true

/-- A use of host code. -/
inductive Call
  | read
  | write (value : Value)
  | invoke (args : List Value)
  | indexRead (key : Value)
  | indexWrite (key value : Value)

/-- What a navigation step asks a target for. -/
inductive Key
  | name (name : String)
  | index (key : Value)
  | subscript (s : Subscript)

inductive Step
  | property (target : Value) (key : Key)
  | method (target : Value) (name : String) (args : List Value)

def Step.target : Step → Value
  | property target _ => target
  | method target _ _ => target

/-- How an attempt of host code ends. -/
inductive Ending
  /-- The code was not run, for its argument count or for want of a setter. -/
  | refused (error : EvalError)
  | failed (error : EvalError)
  | returned

inductive Event
  /-- The policy's answer, and the member's flag after it. -/
  | asked (access : Access) (allowed flag : Bool)
  /-- The token that was handed out, and the member's flag after it. -/
  | setUp (access : Access) (token : Token) (flag : Bool)
  | reached (access : Access) (call : Call) (ending : Ending)
  | restored (access : Access) (token : Token)
  /-- What a navigation step came to before any substitution. -/
  | navigated (step : Step) (result : Except EvalError Value)
  /-- The answer of the handler registered for that type name, or of the fallback. -/
  | substituted (handler : Option String) (step : Step) (answer : Value)
  /-- An assignment begins here. -/
  | assigning (target : Value) (key : Key) (value : Value)

/-- What all evaluations share. -/
structure Shared (σ : Type) where
  host : σ
  grants : Member → Accessibility

structure World (σ : Type) extends Shared σ where
  trail : Array Event

/-- An action of an evaluation. -/
abbrev Run (σ ε α : Type) := Action (World σ) ε α

namespace Shared

variable {σ : Type}

/-- No member has been flagged or elevated. -/
def fresh (host : σ) : Shared σ := ⟨host, Member.fresh⟩

def setGrant (s : Shared σ) (m : Member) (a : Accessibility) : Shared σ :=
  { s with grants := fun n => if n = m then a else s.grants n }

def setFlag (s : Shared σ) (m : Member) (flag : Bool) : Shared σ :=
  s.setGrant m { s.grants m with flag }

def elevate (s : Shared σ) (m : Member) : Shared σ :=
  s.setGrant m { s.grants m with elevations := (s.grants m).elevations + 1 }

def revoke (s : Shared σ) (m : Member) : Except AccessError Unit × Shared σ :=
  if (s.grants m).elevations = 0 then (.error (.unbalanced m.display), s)
  else (.ok (), s.setGrant m { s.grants m with elevations := (s.grants m).elevations - 1 })

@[simp] theorem setGrant_same (s : Shared σ) (m : Member) (a : Accessibility) :
    (s.setGrant m a).grants m = a := by
  simp [setGrant]

theorem setGrant_of_ne (s : Shared σ) {m n : Member} (a : Accessibility) (h : n ≠ m) :
    (s.setGrant m a).grants n = s.grants n := by
  simp [setGrant, h]

@[simp] theorem host_setGrant (s : Shared σ) (m : Member) (a : Accessibility) :
    (s.setGrant m a).host = s.host := rfl

end Shared

namespace World

variable {σ : Type}

def start (host : σ) : World σ := { Shared.fresh host with trail := #[] }

def record (w : World σ) (e : Event) : World σ := { w with trail := w.trail.push e }

/-- A step on what is shared, followed by the event that tells of it. -/
def onShared {ε α : Type} (f : Shared σ → α × Shared σ) (event : α → Shared σ → Event) :
    Run σ ε α := fun w =>
  (.ok (f w.toShared).1,
    { (f w.toShared).2 with
      trail := w.trail.push (event (f w.toShared).1 (f w.toShared).2) })

/-- Runs an action and records how it ended. -/
def recording {ε α : Type} (event : Except ε α → Event) (run : Run σ ε α) : Run σ ε α := fun w =>
  ((run w).1, (run w).2.record (event (run w).1))

/-- Records an event. -/
def note {ε : Type} (e : Event) : Run σ ε Unit := Action.modify fun w => w.record e

end World

/-- An attempt of host code: the call, and the code to run or the reason why the
attempt is refused. -/
structure Attempt (σ α : Type) where
  call : Call
  outcome : Except EvalError (HostCode σ α)

/-- How a run of host code ended. -/
def Ending.ofResult {α : Type} : Except EvalError α → Ending
  | .ok _ => returned
  | .error e => failed e

namespace Attempt

variable {σ α : Type}

def perform (a : Attempt σ α) (access : Access) : Run σ EvalError α := fun w =>
  match a.outcome with
  | .error e => (.error e, w.record (.reached access a.call (.refused e)))
  | .ok code =>
    ((code w.host).1,
      { w with host := (code w.host).2 }.record
        (.reached access a.call (.ofResult (code w.host).1)))

end Attempt

variable {σ : Type}

def Field.reading (f : Field σ) (handle : String) : Attempt σ Value :=
  ⟨.read, .ok (f.read handle)⟩

def Field.writing (f : Field σ) (member : Member) (handle : String) (value : Value) :
    Attempt σ Unit :=
  ⟨.write value,
    match f.write with
    | some write => .ok (write handle value)
    | none => .error (.notAssignable ("field '" ++ member.display ++ "' is read-only"))⟩

/-- Refused when the method has a fixed argument count and gets another. -/
def Method.invoking (m : Method σ) (name : String) (handle : String) (args : List Value) :
    Attempt σ Value :=
  ⟨.invoke args,
    match m.arity with
    | none => .ok (m.body handle args)
    | some expected =>
      if expected = args.length then .ok (m.body handle args)
      else .error (.arity name expected args.length)⟩

def Indexer.reading (ix : Indexer σ) (handle : String) (key : Value) : Attempt σ Value :=
  ⟨.indexRead key, .ok (ix.read handle key)⟩

def Indexer.writing (ix : Indexer σ) (cls : ClassRef) (handle : String) (key value : Value) :
    Attempt σ Unit :=
  ⟨.indexWrite key value,
    match ix.write with
    | some write => .ok (write handle key value)
    | none => .error (.notAssignable ("indexer of " ++ cls.name ++ " is read-only"))⟩

def Property.reading (p : Property σ) (handle : String) : Attempt σ Value :=
  match p with
  | .field _ f => f.reading handle
  | .getter name m => m.invoking name handle []

end ObjectGraph
