import ObjectGraph.Evaluation

/-!
# Evaluation as an inquiry

Whatever an evaluation learns from the world or does to it happens in its navigation steps. What
is left of an expression when the steps are taken away is an inquiry, a tree that asks for the
value of one step after the other and goes on from each answer. Evaluation is this inquiry, run
with the steps of a context.
-/
namespace ObjectGraph

/-- A computation that asks for the values of navigation steps. -/
inductive Inquiry (α : Type)
  | done (x : α)
  | ask (step : Step) (next : Value → Inquiry α)

namespace Inquiry

variable {σ α β : Type}

def bind : Inquiry α → (α → Inquiry β) → Inquiry β
  | done x, f => f x
  | ask step next, f => ask step fun v => (next v).bind f

instance : Monad Inquiry where
  pure := done
  bind := bind

/-- The value of a single step. -/
def single (step : Step) : Inquiry Value := ask step done

/-- Asks by taking the steps. The first step that fails ends the run. -/
def run (take : Step → Run σ EvalError Value) : Inquiry α → Run σ EvalError α
  | done x => pure x
  | ask step next => take step >>= fun v => (next v).run take

variable (take : Step → Run σ EvalError Value)

@[simp] theorem run_pure (x : α) : (pure x : Inquiry α).run take = pure x := rfl

@[simp] theorem run_single (step : Step) : (single step).run take = take step := bind_pure _

@[simp] theorem run_bind (i : Inquiry α) (f : α → Inquiry β) :
    (i >>= f).run take = i.run take >>= fun x => (f x).run take := by
  induction i with
  | done x => rfl
  | ask step next ih =>
    change (take step >>= fun v => (next v >>= f).run take) = _
    simp only [ih, run, bind_assoc]

end Inquiry

namespace Navigation

variable {σ : Type} (classes : Registry σ) (ctx : Context σ)

/-- What a step comes to before null handlers are asked. -/
def bare : Step → Run σ EvalError Value
  | .property target (.name name) => propertyOf classes ctx target name
  | .property target (.index key) => indexOf classes ctx target key
  | .property target (.subscript s) => Action.ofExcept (subscriptOf target s)
  | .method target name args => resultOf classes ctx target name args

/-- A step with all that navigation does around it. -/
def take (step : Step) : Run σ EvalError Value := navigate ctx step (bare classes ctx step)

end Navigation

namespace Expr

mutual
/-- The steps that the evaluation of an expression takes, and what it makes of their values. -/
def inquiry (b : Bindings) : Expr → Value → Inquiry Value
  | const literal, _ => pure literal.toValue
  | root, _ => pure b.root
  | source, here => pure here
  | var name, _ => pure ((b.vars.find? name).getD .null)
  | property name, here => .single (.property here (.name name))
  | index key, here => do
    let key ← inquiry b key b.root
    .single (.property here (.index key))
  | subscript s, here => .single (.property here (.subscript s))
  | method name args, here => do
    let args ← inquiryArgs b args
    .single (.method here name args)
  | chain links, here => inquiryLinks b links here
  | not operand, here => do
    let value ← inquiry b operand here
    return .boolean !value.truthy
  | logical op operands, here => inquiryOperands b op operands (.boolean op.identity) here
  | compare op left right, here => do
    let left ← inquiry b left here
    let right ← inquiry b right here
    return .boolean (op.apply (left.equals right))
termination_by structural e => e

def inquiryArgs (b : Bindings) : List Expr → Inquiry (List Value)
  | [] => pure []
  | arg :: args => do
    let value ← inquiry b arg b.root
    let values ← inquiryArgs b args
    return value :: values
termination_by structural args => args

def inquiryLinks (b : Bindings) : List Expr → Value → Inquiry Value
  | [], here => pure here
  | link :: links, here => do
    let value ← inquiry b link here
    inquiryLinks b links value
termination_by structural links => links

def inquiryOperands (b : Bindings) (op : Connective) :
    List Expr → Value → Value → Inquiry Value
  | [], last, _ => pure last
  | operand :: operands, _, here => do
    let value ← inquiry b operand here
    if op.stopsAt value.truthy then pure value else inquiryOperands b op operands value here
termination_by structural operands => operands
end

variable {σ : Type} (classes : Registry σ) (ctx : Context σ)

mutual
/-- Nothing but its steps connects an evaluation with the world. -/
theorem run_inquiry : ∀ (e : Expr) (here : Value),
    (e.inquiry ctx.toBindings here).run (Navigation.take classes ctx) =
      e.evaluate classes ctx here
  | const literal, _ => rfl
  | root, _ => rfl
  | source, here => rfl
  | var name, _ => rfl
  | property name, here => Inquiry.run_single _ _
  | index key, here => by
    simp only [inquiry, evaluate, Inquiry.run_bind, Inquiry.run_single, run_inquiry key ctx.root]
    rfl
  | subscript s, here => Inquiry.run_single _ _
  | method name args, here => by
    simp only [inquiry, evaluate, Inquiry.run_bind, Inquiry.run_single, run_inquiryArgs args]
    rfl
  | chain links, here => run_inquiryLinks links here
  | not operand, here => by
    simp only [inquiry, evaluate, Inquiry.run_bind, Inquiry.run_pure, run_inquiry operand here]
  | logical op operands, here => run_inquiryOperands op operands _ here
  | compare op left right, here => by
    simp only [inquiry, evaluate, Inquiry.run_bind, Inquiry.run_pure, run_inquiry left here,
      run_inquiry right here]
termination_by structural e => e

theorem run_inquiryArgs : ∀ args : List Expr,
    (inquiryArgs ctx.toBindings args).run (Navigation.take classes ctx) =
      evaluateArgs classes ctx args
  | [] => rfl
  | arg :: args => by
    simp only [inquiryArgs, evaluateArgs, Inquiry.run_bind, Inquiry.run_pure,
      run_inquiry arg ctx.root, run_inquiryArgs args]
termination_by structural args => args

theorem run_inquiryLinks : ∀ (links : List Expr) (here : Value),
    (inquiryLinks ctx.toBindings links here).run (Navigation.take classes ctx) =
      evaluateLinks classes ctx links here
  | [], _ => rfl
  | link :: links, here => by
    simp only [inquiryLinks, evaluateLinks, Inquiry.run_bind, run_inquiry link here]
    exact bind_congr fun value => run_inquiryLinks links value
termination_by structural links => links

theorem run_inquiryOperands (op : Connective) : ∀ (operands : List Expr) (last here : Value),
    (inquiryOperands ctx.toBindings op operands last here).run (Navigation.take classes ctx) =
      evaluateOperands classes ctx op operands last here
  | [], _, _ => rfl
  | operand :: operands, _, here => by
    simp only [inquiryOperands, evaluateOperands, Inquiry.run_bind, run_inquiry operand here]
    refine bind_congr fun value => ?_
    split
    · rfl
    · exact run_inquiryOperands op operands value here
termination_by structural operands => operands
end

end Expr
end ObjectGraph
