import ObjectGraph.Evaluation
import ObjectGraph.Proofs.PlainData

/-!
# Evaluation of plain data

Where no host object is within reach and null handlers are functions of what they are given, an
evaluation comes to the same in every world, and its value is plain again.
-/
namespace ObjectGraph

variable {σ ε α β : Type}

/-- The action comes to this in every world. -/
def Steady (a : Run σ ε α) (o : Except ε α) : Prop := ∀ w, (a w).1 = o

namespace Steady

variable {a : Run σ ε α} {f : α → Run σ ε β}

theorem pure (x : α) : Steady (Pure.pure x : Run σ ε α) (.ok x) := fun _ => rfl

theorem bind {x : α} {o : Except ε β} (ha : Steady a (.ok x)) (hf : Steady (f x) o) :
    Steady (a >>= f) o := by
  intro w
  have hw : a w = (.ok x, (a w).2) := by rw [← ha w]
  rw [Action.bind_of_ok hw]
  exact hf _

theorem bind_error {e : ε} (ha : Steady a (.error e)) : Steady (a >>= f) (.error e) := by
  intro w
  have hw : a w = (.error e, (a w).2) := by rw [← ha w]
  rw [Action.bind_of_error hw]

end Steady

/-- The two actions come to one outcome in all worlds, and a result has the property. -/
def Agree (P : α → Prop) (a a' : Run σ ε α) : Prop :=
  ∃ o, Steady a o ∧ Steady a' o ∧ ∀ x, o = .ok x → P x

namespace Agree

variable {P : α → Prop} {Q : β → Prop} {a a' : Run σ ε α} {f f' : α → Run σ ε β}

theorem of_steady {o : Except ε α} (h : Steady a o) (hP : ∀ x, o = .ok x → P x) : Agree P a a :=
  ⟨o, h, h, hP⟩

theorem pure {x : α} (h : P x) : Agree P (Pure.pure x : Run σ ε α) (Pure.pure x) := by
  refine of_steady (.pure x) ?_
  rintro _ ⟨⟩
  exact h

theorem fail (e : ε) : Agree P (Action.fail e : Run σ ε α) (Action.fail e) :=
  of_steady (fun _ => rfl) nofun

theorem bind (ha : Agree P a a') (hf : ∀ x, P x → Agree Q (f x) (f' x)) :
    Agree Q (a >>= f) (a' >>= f') := by
  obtain ⟨o, hsteady, hsteady', hP⟩ := ha
  cases o with
  | error e => exact ⟨.error e, hsteady.bind_error, hsteady'.bind_error, nofun⟩
  | ok x =>
    obtain ⟨o, hnext, hnext', hQ⟩ := hf x (hP x rfl)
    exact ⟨o, hsteady.bind hnext, hsteady'.bind hnext', hQ⟩

theorem bind_left {x : α} (ha : Steady a (.ok x)) {b : Run σ ε β} (h : Agree Q (f x) b) :
    Agree Q (a >>= f) b := by
  obtain ⟨o, hnext, hb, hQ⟩ := h
  exact ⟨o, ha.bind hnext, hb, hQ⟩

theorem bind_right {x : α} (ha : Steady a (.ok x)) {b : Run σ ε β} (h : Agree Q b (f x)) :
    Agree Q b (a >>= f) := by
  obtain ⟨o, hb, hnext, hQ⟩ := h
  exact ⟨o, hb, ha.bind hnext, hQ⟩

end Agree

/-- The action comes to one outcome in all worlds, and a result has the property. -/
abbrev Settles (P : α → Prop) (a : Run σ ε α) : Prop := Agree P a a

namespace Settles

variable {P Q : α → Prop} {a : Run σ ε α} {w w' : World σ} {x : α}

/-- What a settled action comes to in one world, it comes to in all of them. -/
theorem steady (h : Settles P a) (hrun : a w = (.ok x, w')) : Steady a (.ok x) ∧ P x := by
  obtain ⟨o, hsteady, -, hP⟩ := h
  have ho : o = .ok x := by rw [← hsteady w, hrun]
  subst ho
  exact ⟨hsteady, hP x rfl⟩

theorem exists_steady_iff (h : Settles P a) (hrun : a w = (.ok x, w')) :
    (∃ y, Steady a (.ok y) ∧ Q y) ↔ Q x := by
  constructor
  · rintro ⟨y, hsteady, hy⟩
    have hsame := hsteady w
    rw [hrun] at hsame
    cases hsame
    exact hy
  · intro hx
    exact ⟨x, (h.steady hrun).1, hx⟩

end Settles

theorem settles_ofExcept {P : Value → Prop} {r : Except EvalError Value} (h : Yields P r) :
    Settles P (Action.ofExcept r : Run σ EvalError Value) := by
  refine .of_steady (fun _ => rfl) ?_
  rintro v rfl
  exact h

/-- No host object is within reach, and null handlers are functions of what they are given. -/
structure Context.Plain (ctx : Context σ) : Prop where
  root : ctx.root.Plain
  vars {name : String} {v : Value} : ctx.vars.find? name = some v → v.Plain
  nulls {typeName : String} {slot : Option String} {h : NullHandler σ} :
    ctx.nulls.handler? typeName = some (slot, h) → ∀ step, ∃ v, v.Plain ∧
      ∀ host, h.answer ctx.toBindings step host = (v, host)

variable {classes : Registry σ} {ctx : Context σ}

theorem Context.Plain.valueOf (hctx : ctx.Plain) (name : String) :
    (ctx.valueOf name).Plain := by
  unfold Context.valueOf
  cases hfind : ctx.vars.find? name with
  | none => rfl
  | some v => exact hctx.vars hfind

namespace Navigation

theorem settles_fill (hctx : ctx.Plain) (step : Step) :
    Settles Value.Plain
      (ctx.nulls.fill ctx.toBindings step : Run σ EvalError Value) := by
  cases hhandler : ctx.nulls.handler? step.target.typeName with
  | none =>
    have hfill : Steady (ctx.nulls.fill ctx.toBindings step : Run σ EvalError Value)
        (.ok .null) := by
      intro w
      simp only [NullHandlers.fill, hhandler]
    refine .of_steady hfill ?_
    rintro _ ⟨⟩
    rfl
  | some entry =>
    obtain ⟨v, hv, hanswer⟩ := hctx.nulls hhandler step
    have hfill : Steady (ctx.nulls.fill ctx.toBindings step : Run σ EvalError Value)
        (.ok v) := by
      intro w
      simp only [NullHandlers.fill, hhandler, hanswer]
    refine .of_steady hfill ?_
    rintro _ ⟨⟩
    exact hv

theorem settles_navigate (hctx : ctx.Plain) (step : Step) {a : Run σ EvalError Value}
    (ha : Settles Value.Plain a) :
    Settles Value.Plain (navigate ctx step a) := by
  have hrecording : Settles Value.Plain
      (World.recording (.navigated step) a) := by
    obtain ⟨o, hsteady, -, hplain⟩ := ha
    exact .of_steady (fun w => hsteady w) hplain
  refine hrecording.bind fun v hv => ?_
  split
  · exact settles_fill hctx step
  · exact .pure hv

theorem settles_propertyOf {here : Value} (h : here.Plain) (name : String) :
    Settles Value.Plain (propertyOf classes ctx here name) := by
  have hdown := Value.handedDown_plain
  cases here with
  | object o => cases h
  | map entries => exact .pure (hdown.entryAt h name)
  | array items =>
    simp only [propertyOf]
    split
    · exact .pure (hdown.ofNat _)
    · exact .fail _
  | string s =>
    simp only [propertyOf]
    split
    · exact .pure (hdown.ofNat _)
    · exact .fail _
  | _ => exact .fail _

theorem settles_indexOf {here : Value} (h : here.Plain) (key : Value) :
    Settles Value.Plain (indexOf classes ctx here key) := by
  have hdown := Value.handedDown_plain
  cases here with
  | object o => cases h
  | map entries => exact .pure (hdown.entryAt h _)
  | array items =>
    cases key with
    | integer index => exact settles_ofExcept (Builtin.yields_itemAt hdown h index)
    | _ => exact .fail _
  | _ => exact .fail _

theorem settles_resultOf {here : Value} (h : here.Plain) (name : String)
    (args : List Value) :
    Settles Value.Plain (resultOf classes ctx here name args) := by
  cases here with
  | object o => cases h
  | null => exact .fail _
  | _ => exact settles_ofExcept (Builtin.yields_call Value.handedDown_plain h name args)

end Navigation

namespace Expr

open Navigation

mutual
/-- Evaluation of plain data comes to one outcome, and to plain data. -/
theorem settles_evaluate (hctx : ctx.Plain) : ∀ (e : Expr) {here : Value}, here.Plain →
    Settles Value.Plain (e.evaluate classes ctx here)
  | const literal, _, _ => .pure (by cases literal <;> rfl)
  | root, _, _ => .pure hctx.root
  | source, _, h => .pure h
  | var name, _, _ => .pure (hctx.valueOf name)
  | property name, _, h => settles_navigate hctx _ (settles_propertyOf h name)
  | index key, _, h =>
    (settles_evaluate hctx key hctx.root).bind fun k _ =>
      settles_navigate hctx _ (settles_indexOf h k)
  | subscript s, _, h =>
    settles_navigate hctx _ (settles_ofExcept (yields_subscriptOf Value.handedDown_plain h s))
  | method name args, _, h =>
    (settles_evaluateArgs hctx args).bind fun values _ =>
      settles_navigate hctx _ (settles_resultOf h name values)
  | chain links, _, h => settles_evaluateLinks hctx links h
  | not operand, _, h => (settles_evaluate hctx operand h).bind fun _ _ => .pure rfl
  | logical op operands, _, h => settles_evaluateOperands hctx op operands rfl h
  | compare op left right, _, h =>
    (settles_evaluate hctx left h).bind fun _ _ =>
      (settles_evaluate hctx right h).bind fun _ _ => .pure rfl
termination_by structural e => e

theorem settles_evaluateArgs (hctx : ctx.Plain) : ∀ args : List Expr,
    Settles (fun _ => True) (evaluateArgs classes ctx args)
  | [] => .pure trivial
  | arg :: args =>
    (settles_evaluate hctx arg hctx.root).bind fun _ _ =>
      (settles_evaluateArgs hctx args).bind fun _ _ => .pure trivial
termination_by structural args => args

theorem settles_evaluateLinks (hctx : ctx.Plain) : ∀ (links : List Expr) {here : Value},
    here.Plain → Settles Value.Plain (evaluateLinks classes ctx links here)
  | [], _, h => .pure h
  | link :: links, _, h =>
    (settles_evaluate hctx link h).bind fun _ hv => settles_evaluateLinks hctx links hv
termination_by structural links => links

theorem settles_evaluateOperands (hctx : ctx.Plain) (op : Connective) :
    ∀ (operands : List Expr) {last here : Value}, last.Plain → here.Plain →
      Settles Value.Plain (evaluateOperands classes ctx op operands last here)
  | [], _, _, hlast, _ => .pure hlast
  | operand :: operands, _, _, _, h =>
    (settles_evaluate hctx operand h).bind fun v hv => by
      split
      · exact .pure hv
      · exact settles_evaluateOperands hctx op operands hv h
termination_by structural operands => operands
end

end Expr
end ObjectGraph
