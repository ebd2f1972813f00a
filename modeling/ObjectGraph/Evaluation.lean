import ObjectGraph.Expr.Display
import ObjectGraph.Navigation

/-!
# Evaluation and assignment

Subexpressions are evaluated in order and the first error ends the evaluation. Index
keys and arguments are evaluated against the root. A connective yields the operand
that decided it, not a coerced truth value.
-/
namespace ObjectGraph.Expr

variable {σ : Type} (classes : Registry σ)

mutual
/-- The value of an expression against a source. -/
def evaluate (ctx : Context σ) : Expr → Value → Run σ EvalError Value
  | const literal, _ => pure literal.toValue
  | root, _ => pure ctx.root
  | source, here => pure here
  | var name, _ => pure (ctx.valueOf name)
  | property name, here => Navigation.getProperty classes ctx here name
  | index key, here => do
    let key ← evaluate ctx key ctx.root
    Navigation.getIndex classes ctx here key
  | subscript s, here => Navigation.getSubscript ctx here s
  | method name args, here => do
    let args ← evaluateArgs ctx args
    Navigation.callMethod classes ctx here name args
  | chain links, here => evaluateLinks ctx links here
  | not operand, here => do
    let value ← evaluate ctx operand here
    return .boolean !value.truthy
  | logical op operands, here => evaluateOperands ctx op operands (.boolean op.identity) here
  | compare op left right, here => do
    let left ← evaluate ctx left here
    let right ← evaluate ctx right here
    return .boolean (op.apply (left.equals right))
termination_by structural e => e

def evaluateArgs (ctx : Context σ) : List Expr → Run σ EvalError (List Value)
  | [] => pure []
  | arg :: args => do
    let value ← evaluate ctx arg ctx.root
    let values ← evaluateArgs ctx args
    return value :: values
termination_by structural args => args

/-- Each link against the value of the link before it. -/
def evaluateLinks (ctx : Context σ) : List Expr → Value → Run σ EvalError Value
  | [], here => pure here
  | link :: links, here => do
    let value ← evaluate ctx link here
    evaluateLinks ctx links value
termination_by structural links => links

/-- The operands up to the one that decides; `last` is the value so far. -/
def evaluateOperands (ctx : Context σ) (op : Connective) :
    List Expr → Value → Value → Run σ EvalError Value
  | [], last, _ => pure last
  | operand :: operands, _, here => do
    let value ← evaluate ctx operand here
    if op.stopsAt value.truthy then pure value else evaluateOperands ctx op operands value here
termination_by structural operands => operands
end

mutual
/-- Assigns to the place that an expression designates on a source. -/
def assign : Expr → Value → Value → Action (Session σ) EvalError Unit
  | var name, _, value => Session.change fun ctx => ctx.setVariable name value
  | property name, here, value =>
    Session.reading fun ctx => Navigation.setProperty classes ctx here name value
  | index key, here, value => do
    let key ← Session.reading fun ctx => evaluate classes ctx key ctx.root
    Session.reading fun ctx => Navigation.setIndex classes ctx here key value
  | chain links, here, value => assignLinks links here value
  | e, _, _ => Action.fail (.notAssignable e.display)
termination_by structural e => e

/-- Navigates along all links but the last and assigns through that one. -/
def assignLinks : List Expr → Value → Value → Action (Session σ) EvalError Unit
  | [], _, _ => Action.fail (.notAssignable "empty chain")
  | [last], here, value => assign last here value
  | link :: next :: links, here, value => do
    let target ← Session.reading fun ctx => evaluate classes ctx link here
    assignLinks (next :: links) target value
termination_by structural links => links
end

/-- The value of an expression against the root. -/
def value (ctx : Context σ) (e : Expr) : Run σ EvalError Value := e.evaluate classes ctx ctx.root

/-- Assigns through an expression, navigating from the root. -/
def assignFromRoot (e : Expr) (value : Value) : Action (Session σ) EvalError Unit := do
  let ctx ← Session.current
  e.assign classes ctx.root value

end ObjectGraph.Expr
