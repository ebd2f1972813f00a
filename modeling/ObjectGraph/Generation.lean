import ObjectGraph.Evaluation

/-!
# Generation of source fragments

An expression is rendered against a target into a fragment that does what its
evaluation does. The context keeps the hint of the fragment rendered last and the
place from which the next one navigates. Later links of a chain depend on the runtime
type of the earlier ones, so all links but the last are evaluated while the chain is
rendered.
-/
namespace ObjectGraph

inductive GenerationError
  /-- The expression cannot be rendered because of this failure. -/
  | failed (e : Expr) (cause : EvalError)
  /-- The expression cannot be rendered because its operand cannot. -/
  | within (e : Expr) (cause : GenerationError)

namespace GenerationError

def expression : GenerationError → Expr
  | failed e _ => e
  | within e _ => e

/-- The error and the errors within it, outermost first. -/
def nesting : GenerationError → List GenerationError
  | failed e cause => [failed e cause]
  | within e cause => within e cause :: cause.nesting

/-- The failure that started it. -/
def origin : GenerationError → EvalError
  | failed _ cause => cause
  | within _ cause => cause.origin

def message : GenerationError → String
  | failed e cause => "cannot generate source for `" ++ e.display ++ "`: " ++ cause.message
  | within e cause => "cannot generate source for `" ++ e.display ++ "`: " ++ cause.message

end GenerationError

/-- An action of generation. -/
abbrev Generation (σ α : Type) := Action (Session σ) GenerationError α

namespace Generation

variable {σ α : Type}

def setHint (hint : TypeHint) : Generation σ Unit :=
  Session.change fun ctx => ctx.setCurrentType hint

def setPlace (place : Fragment) : Generation σ Unit :=
  Session.change fun ctx => { ctx with place }

def place : Generation σ Fragment := do
  let ctx ← Session.current
  return ctx.place

/-- Puts the place back afterwards, also after an error. -/
def keepingPlace (g : Generation σ α) : Generation σ α := fun s =>
  ((g s).1, { (g s).2 with context := { (g s).2.context with place := s.context.place } })

/-- The fragment as a value, by the hint that it leaves. -/
def asValue (g : Generation σ Fragment) : Generation σ Fragment := do
  let fragment ← g
  let ctx ← Session.current
  return fragment.asValue ctx.currentType

/-- An operand that navigates from the root. -/
def fromRoot (g : Value → Generation σ Fragment) : Generation σ Fragment := do
  let ctx ← Session.current
  keepingPlace do
    setPlace .rootPlace
    asValue (g ctx.root)

/-- A fragment that navigates from the current place and whose type is not known. -/
def navigating (fragment : Fragment → Fragment) : Generation σ Fragment := do
  setHint .dynamic
  let here ← place
  return fragment here

/-- Refuses a member that the policy denies, whatever its flag. -/
def checkAccess (e : Expr) (o : ObjectRef) (member : Member) (name : String) :
    Generation σ Unit := do
  let allowed ← Session.reading fun ctx =>
    ctx.policy.ask ctx.toBindings ⟨.object o, member, name⟩
  if allowed then pure () else Action.fail (.failed e (.inaccessible o.cls.name name))

variable (classes : Registry σ)

/-- The members of a host target are looked up and checked while rendering. -/
def checkProperty (e : Expr) (target : Value) (name : String) : Generation σ Unit :=
  match target with
  | .object o =>
    match (classes o.cls).property? name with
    | some p => checkAccess e o (p.member o.cls) name
    | none => Action.fail (.failed e (.noSuchMember o.cls.name name))
  | _ => pure ()

def checkMethod (e : Expr) (target : Value) (name : String) : Generation σ Unit :=
  match target with
  | .object o =>
    match (classes o.cls).method? name with
    | some m => checkAccess e o (m.member o.cls name) name
    | none => Action.fail (.failed e (.noSuchMember o.cls.name name))
  | _ => pure ()

/-- Evaluates a link of a chain. -/
def stepping (whole link : Expr) (here : Value) : Generation σ Value :=
  (Session.reading fun ctx => link.evaluate classes ctx here).mapError (.failed whole)

end Generation

namespace Expr

open Generation

variable {σ : Type} (classes : Registry σ)

mutual
/-- The fragment of an expression against a target. -/
def generate : Expr → Value → Generation σ Fragment
  | const literal, _ => do
    setHint literal.toValue.typeHint
    return .ofLiteral literal
  | root, _ => do
    let ctx ← Session.current
    setHint ctx.root.typeHint
    return .clone .rootPlace
  | source, target => do
    setHint target.typeHint
    let here ← place
    return .clone here
  | var name, _ => do
    let ctx ← Session.current
    setHint (((ctx.vars.find? name).map Value.typeHint).getD .dynamic)
    return .var name
  | property name, target => do
    checkProperty classes (property name) target name
    navigating fun here => .property here name
  | index key, _ => do
    let key ← fromRoot fun origin => generate key origin
    navigating fun here => .index here key
  | subscript s, _ => navigating fun here => .subscript here s
  | method name args, target => do
    checkMethod classes (method name args) target name
    let args ← generateArgs args
    navigating fun here => .call here name args
  | chain [], _ => do
    setHint .dynamic
    return .blank
  | chain (link :: links), target =>
    keepingPlace (generateLinks (chain (link :: links)) (link :: links) target)
  | not operand, target => do
    let operand ← (generate operand target).mapError (.within (not operand))
    setHint .boolean
    return .not operand.orNull
  | logical op operands, target => do
    let operands ← generateOperands operands target
    setHint .dynamic
    return .guards op operands
  | compare op left right, target => do
    let left ← asValue (generate left target)
    let right ← asValue (generate right target)
    setHint .boolean
    return if op.apply true then .equal left right else .differ left right
termination_by structural e => e

def generateArgs : List Expr → Generation σ (List Fragment)
  | [] => pure []
  | arg :: args => do
    let fragment ← fromRoot fun origin => generate arg origin
    let fragments ← generateArgs args
    return fragment :: fragments
termination_by structural args => args

def generateOperands : List Expr → Value → Generation σ (List Fragment)
  | [], _ => pure []
  | operand :: operands, target => do
    let fragment ← asValue (generate operand target)
    let fragments ← generateOperands operands target
    return fragment :: fragments
termination_by structural operands => operands

/-- Renders each link against the value of the one before it and from the place of its
fragment; the result is the fragment of the last. -/
def generateLinks (whole : Expr) : List Expr → Value → Generation σ Fragment
  | [], _ => pure .blank
  | [last], target => generate last target
  | link :: next :: links, target => do
    let fragment ← asValue (generate link target)
    let value ← stepping classes whole link target
    setPlace (.group fragment)
    generateLinks whole (next :: links) value
termination_by structural links => links
end

/-- Renders an expression against the root, forgetting what earlier generations left. -/
def generateFromRoot (e : Expr) : Generation σ Fragment := do
  Session.change Context.reset
  let ctx ← Session.current
  e.generate classes ctx.root

end Expr
end ObjectGraph
