import ObjectGraph.Evaluation

/-!
# Algebra of the connectives

A connective yields the operand that decides it, and no operand after that one is evaluated. So
the operands of a connective within the same connective may as well stand in one list, and a
negated connective is the other one over negated operands. Effects and errors are the same on both
sides: the equations are between actions, not between values.
-/
namespace ObjectGraph

namespace Connective

/-- The other connective. -/
def dual : Connective → Connective
  | and => or
  | or => and

theorem stopsAt_dual (op : Connective) (truth : Bool) :
    op.dual.stopsAt truth = op.stopsAt (!truth) := by
  cases op <;> simp [dual, stopsAt]

theorem identity_dual (op : Connective) : op.dual.identity = !op.identity := by
  cases op <;> rfl

theorem stopsAt_identity (op : Connective) : op.stopsAt op.identity = false := by
  cases op <;> rfl

end Connective

namespace Expr

variable {σ : Type} {classes : Registry σ} {ctx : Context σ}

/-- The value so far is the outcome only where there is no operand. -/
theorem evaluateOperands_of_ne_nil (op : Connective) {operands : List Expr} (h : operands ≠ [])
    (last last' here : Value) :
    evaluateOperands classes ctx op operands last here =
      evaluateOperands classes ctx op operands last' here := by
  cases operands with
  | nil => exact absurd rfl h
  | cons operand operands => rfl

/-- Unless an operand of the first list decides, the second list goes on from its value. -/
theorem evaluateOperands_append (op : Connective) (xs ys : List Expr) {last : Value} (here : Value)
    (hlast : op.stopsAt last.truthy = false) :
    evaluateOperands classes ctx op (xs ++ ys) last here =
      evaluateOperands classes ctx op xs last here >>= fun v =>
        if op.stopsAt v.truthy then pure v else evaluateOperands classes ctx op ys v here := by
  induction xs generalizing last with
  | nil => simp [evaluateOperands, hlast]
  | cons operand xs ih =>
    simp only [List.cons_append, evaluateOperands, bind_assoc]
    refine bind_congr fun v => ?_
    cases hstop : op.stopsAt v.truthy with
    | true => simp [hstop]
    | false => simp [ih hstop]

/-- A connective as the only operand of the same connective. -/
theorem evaluateOperands_nested (op : Connective) {operands : List Expr} (h : operands ≠ [])
    (last here : Value) :
    evaluateOperands classes ctx op [logical op operands] last here =
      evaluateOperands classes ctx op operands last here := by
  simp only [evaluateOperands, evaluate, ite_self, bind_pure]
  exact evaluateOperands_of_ne_nil op h _ last here

theorem evaluate_logical_nested (op : Connective) (xs : List Expr) {ys : List Expr} (h : ys ≠ [])
    (zs : List Expr) (here : Value) :
    (logical op (xs ++ [logical op ys] ++ zs)).evaluate classes ctx here =
      (logical op (xs ++ ys ++ zs)).evaluate classes ctx here := by
  have hidentity : op.stopsAt (Value.boolean op.identity).truthy = false := op.stopsAt_identity
  simp only [evaluate, evaluateOperands_append op _ _ here hidentity,
    evaluateOperands_nested op h]

/-- The negation moves into the operands: an operand decides the one connective just when its
negation decides the other. -/
theorem evaluateOperands_not (op : Connective) (operands : List Expr) (last here : Value) :
    evaluateOperands classes ctx op.dual (operands.map not) (.boolean !last.truthy) here =
      evaluateOperands classes ctx op operands last here >>= fun v =>
        pure (.boolean !v.truthy) := by
  induction operands generalizing last with
  | nil => simp [evaluateOperands]
  | cons operand operands ih =>
    simp only [List.map_cons, evaluateOperands, evaluate, bind_assoc, pure_bind]
    refine bind_congr fun v => ?_
    have hstop : op.dual.stopsAt (Value.boolean !v.truthy).truthy = op.stopsAt v.truthy := by
      simp [Connective.stopsAt_dual, Value.truthy]
    rw [hstop, ih]
    cases op.stopsAt v.truthy with
    | true => simp
    | false => simp

theorem evaluate_not_logical (op : Connective) (operands : List Expr) (here : Value) :
    (not (logical op operands)).evaluate classes ctx here =
      (logical op.dual (operands.map not)).evaluate classes ctx here := by
  have hidentity : Value.boolean op.dual.identity =
      .boolean !(Value.boolean op.identity).truthy := by
    rw [op.identity_dual]
    rfl
  simp only [evaluate]
  rw [hidentity, evaluateOperands_not]

end Expr

/-- A connective within the same connective is flattened, and a negation is moved into the
operands, without any change in what is evaluated, in which order, on what, and with what outcome:
the actions are equal, in every context and world. Only an inner connective without operands is
not the same as no operand. -/
theorem connectives_flatten_and_negate {σ : Type} (classes : Registry σ) (ctx : Context σ)
    (xs ys zs : List Expr) (here : Value) :
    (ys ≠ [] → ∀ op,
      (Expr.logical op (xs ++ [.logical op ys] ++ zs)).evaluate classes ctx here =
        (Expr.logical op (xs ++ ys ++ zs)).evaluate classes ctx here) ∧
    (Expr.not (.logical .and xs)).evaluate classes ctx here =
      (Expr.logical .or (xs.map .not)).evaluate classes ctx here ∧
    (Expr.not (.logical .or xs)).evaluate classes ctx here =
      (Expr.logical .and (xs.map .not)).evaluate classes ctx here :=
  ⟨fun h op => Expr.evaluate_logical_nested op xs h zs here,
    Expr.evaluate_not_logical .and xs here, Expr.evaluate_not_logical .or xs here⟩

/-- Each operand counts up. The third one decides, and the fourth does not count. -/
theorem connectives_flatten_counting_operands :
    let counter : ClassTable Int64 :=
      ClassTable.build [.method "next" .isPublic 0 fun _ _ n => (.ok (.integer (n + 1)), n + 1)]
    let ctx : Context Int64 := Context.new (.object ⟨⟨0, "Counter"⟩, "c"⟩)
    let evaluate (e : Expr) := e.evaluate (fun _ => counter) ctx ctx.root (World.start 0)
    let next := Expr.method "next" []
    let nested := Expr.logical .or ([.not next] ++ [.logical .or [.not next, next]] ++ [next])
    (evaluate nested).1 = .ok (.integer 3) ∧ (evaluate nested).2.host = 3 ∧
      evaluate nested = evaluate (.logical .or [.not next, .not next, next, next]) := by
  intro counter ctx evaluate next nested
  obtain ⟨hflat, -⟩ := connectives_flatten_and_negate (fun _ => counter) ctx [.not next]
    [.not next, next] [next] ctx.root
  have hsame := hflat (List.cons_ne_nil _ _) .or
  exact ⟨rfl, rfl, congrFun hsame (World.start 0)⟩

end ObjectGraph
