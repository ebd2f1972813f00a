import ObjectGraph.Host.World

/-!
# Access policies and elevation

A policy decides which members may be reached. A member whose flag is not set has to
be elevated for the one access and restored after it. `elevated` runs an access by
this protocol: the policy is asked first; a flagged member is reached directly;
otherwise the access stands between one `setup` and one `restore` of the same token.
-/
namespace ObjectGraph

/-- A policy may look at the bindings, and may change what is shared. Of the context it sees
nothing else: not the null handlers, and not the hint and the place that generation keeps there. So
its answers are those of a policy that does not ask for them. -/
structure Policy (σ : Type) where
  isAccessible : Bindings → Access → Shared σ → Bool × Shared σ
  setup : Bindings → Access → Shared σ → Token × Shared σ
  restore : Bindings → Access → Token → Shared σ → Except AccessError Unit × Shared σ
  description : String

/-- One switch for each visibility that is not public. -/
structure VisibilityPolicy where
  allowPrivate : Bool
  allowProtected : Bool
  allowPackage : Bool
  deriving DecidableEq

namespace VisibilityPolicy

/-- Public members only. -/
def publicOnly : VisibilityPolicy := ⟨false, false, false⟩

def all (allow : Bool) : VisibilityPolicy := ⟨allow, allow, allow⟩

def permits (p : VisibilityPolicy) : Visibility → Bool
  | .isPublic => true
  | .isPrivate => p.allowPrivate
  | .isProtected => p.allowProtected
  | .isPackage => p.allowPackage

variable {σ : Type}

/-- Elevates a permitted member that is not flagged. -/
def setup (p : VisibilityPolicy) (access : Access) (s : Shared σ) : Token × Shared σ :=
  if !p.permits access.member.visibility || (s.grants access.member).flag then (.unchanged, s)
  else (.elevated false, s.elevate access.member)

def restore (access : Access) : Token → Shared σ → Except AccessError Unit × Shared σ
  | .unchanged, s => (.ok (), s)
  | .elevated false, s => s.revoke access.member
  | .elevated true, s =>
    (.error (.improperRestore access.target.typeName access.member.display access.property), s)

def inspect (p : VisibilityPolicy) : String :=
  "DefaultMemberAccess \x7b allow_private: " ++ Member.boolWord p.allowPrivate ++
    ", allow_protected: " ++ Member.boolWord p.allowProtected ++
    ", allow_package_protected: " ++ Member.boolWord p.allowPackage ++ " \x7d"

def toPolicy (p : VisibilityPolicy) : Policy σ where
  isAccessible _ access s := (p.permits access.member.visibility, s)
  setup _ access s := p.setup access s
  restore _ access token s := restore access token s
  description := p.inspect

end VisibilityPolicy

variable {σ α : Type}

def Access.denied (a : Access) : EvalError := .inaccessible a.member.cls.name a.member.name

namespace Policy

/-- Puts the question whether the member may be reached. -/
def ask {ε : Type} (p : Policy σ) (b : Bindings) (a : Access) : Run σ ε Bool :=
  World.onShared (p.isAccessible b a) fun allowed s => .asked a allowed (s.grants a.member).flag

end Policy

/-- A prepared access with the token that is still to be handed back. -/
structure Elevation where
  access : Access
  token : Token

namespace Elevation

def enter {ε : Type} (p : Policy σ) (b : Bindings) (a : Access) : Run σ ε Elevation := do
  let token ← World.onShared (p.setup b a) fun token s => .setUp a token (s.grants a.member).flag
  return ⟨a, token⟩

def release (p : Policy σ) (b : Bindings) (e : Elevation) : Run σ AccessError Unit := do
  let result ← World.onShared (p.restore b e.access e.token) fun _ _ => .restored e.access e.token
  Action.ofExcept result

end Elevation

/-- Holds an elevation until it is released, and nothing from then on. -/
structure Scope where
  held : Option Elevation

namespace Scope

def enter {ε : Type} (p : Policy σ) (b : Bindings) (a : Access) : Run σ ε Scope := do
  let elevation ← Elevation.enter p b a
  return ⟨some elevation⟩

/-- Whether the member was elevated for this scope. -/
def isElevated (s : Scope) : Bool := s.held.any fun elevation => elevation.token.isElevated

/-- Releases what is held, and holds nothing afterwards. -/
def restore {ε : Type} (p : Policy σ) (b : Bindings) (s : Scope) :
    Run σ ε (Except AccessError Unit × Scope) :=
  match s.held with
  | some elevation => do
    let released ← Action.attempt (elevation.release p b)
    return (released, ⟨none⟩)
  | none => pure (.ok (), s)

/-- The end of a scope. What is still held is released; an error of that is lost. -/
def drop {ε : Type} (p : Policy σ) (b : Bindings) (s : Scope) : Run σ ε Unit := do
  let _ ← s.restore p b

/-- Restores, and ends the scope. -/
def release (p : Policy σ) (b : Bindings) (s : Scope) : Run σ AccessError Unit := do
  let (released, rest) ← s.restore p b
  rest.drop p b
  Action.ofExcept released

end Scope

/-- Whether the member's flag is set. -/
def flagged {ε : Type} (m : Member) : Run σ ε Bool :=
  Action.step fun w => ((w.grants m).flag, w)

/-- An error of the access wins over one of the release. -/
def settled (result : Except EvalError α) (released : Except AccessError Unit) :
    Except EvalError α :=
  match result, released with
  | .error e, _ => .error e
  | .ok _, .error e => .error (.access e)
  | .ok x, .ok () => .ok x

/-- An elevation held by another evaluation does not open a member: without its own
token the flag has to be set. -/
def elevated (p : Policy σ) (b : Bindings) (access : Access) (attempt : Attempt σ α) :
    Run σ EvalError α := do
  if ← p.ask b access then
    if ← flagged access.member then
      attempt.perform access
    else
      let scope ← Scope.enter p b access
      let opened ← flagged access.member
      let result ← Action.attempt <|
        if opened || scope.isElevated then attempt.perform access
        else Action.fail access.denied
      let released ← Action.attempt (scope.release p b)
      Action.ofExcept (settled result released)
  else
    Action.fail access.denied

end ObjectGraph
