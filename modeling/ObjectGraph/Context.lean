import ObjectGraph.Access
import ObjectGraph.Fragment
import ObjectGraph.NullHandler

/-!
# Contexts and sessions

A context is what one evaluation works with: the bindings, the policy, the null
handlers, and two things that only generation uses, the hint of the fragment generated
last and the place that fragments navigate from. A session is a context together with
the world.
-/
namespace ObjectGraph

structure Context (σ : Type) extends Bindings where
  policy : Policy σ
  nulls : NullHandlers σ
  currentType : Option TypeHint
  place : Fragment

namespace Context

variable {σ : Type}

/-- Public members only, no variables and no null handlers. -/
def new (root : Value) : Context σ where
  root
  vars := Dict.empty
  policy := VisibilityPolicy.publicOnly.toPolicy
  nulls := NullHandlers.none
  currentType := none
  place := .targetPlace

/-- The value of a variable, null when it is not defined. -/
def valueOf (ctx : Context σ) (name : String) : Value :=
  (ctx.vars.find? name).getD .null

def setVariable (ctx : Context σ) (name : String) (value : Value) : Context σ :=
  { ctx with vars := ctx.vars.insert name value }

def removeVariable (ctx : Context σ) (name : String) : Context σ :=
  { ctx with vars := ctx.vars.erase name }

def setCurrentType (ctx : Context σ) (hint : TypeHint) : Context σ :=
  { ctx with currentType := some hint }

/-- Forgets what generation left behind. -/
def reset (ctx : Context σ) : Context σ :=
  { ctx with currentType := none, place := .targetPlace }

def inspectHint : Option TypeHint → String
  | none => "None"
  | some hint => "Some(" ++ hint.inspect Text.quote ++ ")"

def inspect (ctx : Context σ) : String :=
  "EvalContext \x7b root: " ++ ctx.root.inspect ++ ", variables: " ++
    Value.bracketed "\x7b" "\x7d" (Value.inspectEntries ctx.vars) ++
    ", member_access: " ++ ctx.policy.description ++ ", null_handlers: " ++ ctx.nulls.inspect ++
    ", current_type: " ++ inspectHint ctx.currentType ++ " \x7d"

end Context

structure Session (σ : Type) where
  context : Context σ
  world : World σ

namespace Session

variable {σ ε α : Type}

/-- An action of the session's context on its world. -/
def reading (f : Context σ → Run σ ε α) : Action (Session σ) ε α := fun s =>
  ((f s.context s.world).1, { s with world := (f s.context s.world).2 })

def current : Action (Session σ) ε (Context σ) := Action.step fun s => (s.context, s)

def change (f : Context σ → Context σ) : Action (Session σ) ε Unit :=
  Action.modify fun s => { s with context := f s.context }

end Session
end ObjectGraph
