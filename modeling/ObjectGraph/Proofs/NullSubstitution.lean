import ObjectGraph.Proofs.Effect
import ObjectGraph.Proofs.Gate
import ObjectGraph.Proofs.Inquiry

/-!
# Substitution for null

A run is a sequence of turns, one for each step that the expression's inquiry asks for. A step is
taken as if there were no null handlers. If it comes to null, the handler registered for the type
of its target answers in the place of that null, and the inquiry goes on from the answer. A run
without such a turn is the same under all null handlers.
-/
namespace ObjectGraph

variable {σ α : Type}

/-! ## Remarks -/

namespace World

/-- What the trail tells of navigation. -/
def remarks (w : World σ) : List Event := w.trail.toList.filter Event.isRemark

theorem remarks_record (w : World σ) {event : Event} (h : event.isRemark = true) :
    (w.record event).remarks = w.remarks ++ [event] := by
  simp [remarks, toList_trail_record, h]

variable {P Q : Event → Prop} {w w' : World σ} {told : List Event}

/-- What the trail was extended by, with the part of it that tells of navigation. -/
theorem GrowsBy.exists_told (h : w.GrowsBy P w') (htold : w'.remarks = w.remarks ++ told) :
    ∃ new, w'.trail.toList = w.trail.toList ++ new ∧ (∀ event ∈ new, P event) ∧
      new.filter Event.isRemark = told := by
  obtain ⟨new, htrail, hnew⟩ := h
  refine ⟨new, htrail, hnew, ?_⟩
  rw [remarks, remarks, htrail, List.filter_append] at htold
  exact List.append_cancel_left htold

theorem GrowsBy.forall_told (h : w.GrowsBy P w') (htold : w'.remarks = w.remarks ++ told) :
    ∀ event ∈ told, P event := by
  obtain ⟨new, -, hnew, rfl⟩ := h.exists_told htold
  exact fun event hmem => hnew event (List.mem_filter.1 hmem).1

theorem GrowsBy.of_told (h : w.GrowsBy P w') (htold : w'.remarks = w.remarks ++ told)
    (hQ : ∀ event ∈ told, Q event) (hrest : ∀ event, event.isRemark = false → Q event) :
    w.GrowsBy Q w' := by
  obtain ⟨new, htrail, -, rfl⟩ := h.exists_told htold
  refine ⟨new, htrail, fun event hmem => ?_⟩
  cases hremark : event.isRemark with
  | false => exact hrest event hremark
  | true => exact hQ event (List.mem_filter.2 ⟨hmem, hremark⟩)

end World

/-- The action records no navigation. -/
def Silent (a : Run σ EvalError α) : Prop := ∀ w, (a w).2.remarks = w.remarks

namespace Silent

variable {classes : Registry σ} {ctx : Context σ}

theorem fail (e : EvalError) : Silent (Action.fail e : Run σ EvalError α) := fun _ => rfl

theorem ofExcept (result : Except EvalError α) :
    Silent (Action.ofExcept result : Run σ EvalError α) := fun _ => rfl

theorem elevated (P : Policy σ) (b : Bindings) (access : Access) (attempt : Attempt σ α) :
    Silent (elevated P b access attempt) := by
  intro w
  rcases hask : P.isAccessible b access w.toShared with ⟨allowed, s⟩
  cases allowed with
  | false =>
    rw [elevated_of_no attempt w hask]
    simp [World.remarks, Event.isRemark]
  | true =>
    cases hflag : (s.grants access.member).flag with
    | true =>
      rw [elevated_of_flag attempt w hask hflag, attempt.perform_apply]
      simp [World.remarks, World.record, Event.isRemark]
    | false =>
      rcases hsetup : P.setup b access s with ⟨token, s'⟩
      by_cases hopen : (s'.grants access.member).flag = true ∨ token.isElevated = true
      · rw [elevated_of_lent attempt w hask hflag hsetup hopen rfl]
        simp [World.remarks, Event.isRemark]
      · simp only [not_or, Bool.not_eq_true] at hopen
        rw [elevated_of_withheld attempt w hask hflag hsetup hopen.1 hopen.2 rfl]
        simp [World.remarks, Event.isRemark]

theorem readProperty (o : ObjectRef) (name : String) :
    Silent (Navigation.readProperty classes ctx o name) := by
  unfold Navigation.readProperty
  split
  · exact elevated _ _ _ _
  · exact fail _

theorem propertyOf (source : Value) (name : String) :
    Silent (Navigation.propertyOf classes ctx source name) := by
  cases source with
  | object o => exact readProperty o name
  | map entries => exact ofExcept (.ok _)
  | array items | string s =>
    simp only [Navigation.propertyOf]
    split
    · exact ofExcept (.ok _)
    · exact fail _
  | _ => exact fail _

theorem indexOf (source key : Value) : Silent (Navigation.indexOf classes ctx source key) := by
  cases source with
  | object o =>
    simp only [Navigation.indexOf]
    split
    · exact elevated _ _ _ _
    · split
      · exact readProperty o _
      · exact fail _
  | map entries => exact ofExcept (.ok _)
  | array items =>
    simp only [Navigation.indexOf]
    split
    · exact ofExcept _
    · exact fail _
  | _ => exact fail _

theorem resultOf (source : Value) (name : String) (args : List Value) :
    Silent (Navigation.resultOf classes ctx source name args) := by
  cases source with
  | object o =>
    simp only [Navigation.resultOf]
    split
    · exact elevated _ _ _ _
    · exact fail _
  | null => exact fail _
  | _ => exact ofExcept _

/-- All that a step records of itself is what host code it ran and what the policy said. -/
theorem bare : ∀ step : Step, Silent (Navigation.bare classes ctx step)
  | .property target (.name name) => propertyOf target name
  | .property target (.index key) => indexOf target key
  | .property target (.subscript s) => ofExcept (Navigation.subscriptOf target s)
  | .method target name args => resultOf target name args

theorem remarks_eq {a : Run σ EvalError α} {result : Except EvalError α} {w w' : World σ}
    (h : Silent a) (hrun : a w = (result, w')) : w'.remarks = w.remarks := by
  have hw := h w
  rwa [hrun] at hw

end Silent

/-! ## Turns -/

/-- The handler for a type name, with the name it is registered under. -/
inductive NullHandlers.Registered (nulls : NullHandlers σ) (typeName : String) :
    Option String → NullHandler σ → Prop
  | ofType {handler : NullHandler σ} (h : nulls.byType.find? typeName = some handler) :
      Registered nulls typeName (some typeName) handler
  | fallback {handler : NullHandler σ} (h : nulls.byType.find? typeName = Option.none)
      (hfallback : nulls.fallback = some handler) : Registered nulls typeName Option.none handler

theorem NullHandlers.registered_iff {nulls : NullHandlers σ} {typeName : String}
    {slot : Option String} {handler : NullHandler σ} :
    nulls.Registered typeName slot handler ↔
      nulls.handler? typeName = some (slot, handler) := by
  unfold NullHandlers.handler?
  constructor
  · rintro (h | ⟨h, hfallback⟩)
    · rw [h]
    · rw [h, hfallback]
      rfl
  · intro h
    split at h
    · cases h
      exact .ofType ‹_›
    · obtain ⟨_, hfallback, heq⟩ := Option.map_eq_some_iff.1 h
      cases heq
      exact .fallback ‹_› hfallback

theorem NullHandlers.not_registered_iff {nulls : NullHandlers σ} {typeName : String} :
    (∀ slot handler, ¬ nulls.Registered typeName slot handler) ↔
      nulls.handler? typeName = Option.none := by
  simp only [registered_iff, Option.eq_none_iff_forall_ne_some, Prod.forall, ne_eq]

/-- A step of a run: what it came to by itself, and the answer of a null handler, with the name
under which the handler is registered. -/
structure Turn where
  step : Step
  result : Except EvalError Value
  substitute : Option (Option String × Value)

namespace Turn

/-- What the run goes on with. -/
def answer (t : Turn) : Except EvalError Value :=
  match t.substitute with
  | some (_, value) => .ok value
  | none => t.result

/-- What the trail tells of a turn. -/
def remarks (t : Turn) : List Event :=
  .navigated t.step t.result ::
    (t.substitute.map fun (slot, value) => .substituted slot t.step value).toList

theorem navigated_mem_remarks (t : Turn) : .navigated t.step t.result ∈ t.remarks :=
  List.mem_cons_self

theorem remarks_of_none {t : Turn} (h : t.substitute = none) :
    t.remarks = [.navigated t.step t.result] := by
  rw [remarks, h]
  rfl

/-- How a turn is taken from one world to another. -/
inductive Taken (classes : Registry σ) (ctx : Context σ) : World σ → Turn → World σ → Prop
  /-- The step failed, or did not come to null, or there is no handler for it. -/
  | kept {w w' : World σ} {step : Step} {result : Except EvalError Value}
      (hrun : Navigation.bare classes { ctx with nulls := NullHandlers.none } step w = (result, w'))
      (hkept : result = .ok .null →
        ∀ slot handler, ¬ ctx.nulls.Registered step.target.typeName slot handler) :
      Taken classes ctx w ⟨step, result, none⟩ (w'.record (.navigated step result))
  /-- The step came to null, and a handler answered for it. -/
  | filled {w w' : World σ} {step : Step} {slot : Option String} {handler : NullHandler σ}
      {value : Value} {host : σ}
      (hrun : Navigation.bare classes { ctx with nulls := NullHandlers.none } step w =
        (.ok .null, w'))
      (hhandler : ctx.nulls.Registered step.target.typeName slot handler)
      (hanswer : handler.answer ctx.toBindings step w'.host = (value, host)) :
      Taken classes ctx w ⟨step, .ok .null, some (slot, value)⟩
        ({ w'.record (.navigated step (.ok .null)) with host }.record
          (.substituted slot step value))

end Turn

/-- The turns of a run, one after the other. -/
inductive Attended (classes : Registry σ) (ctx : Context σ) : World σ → List Turn → World σ → Prop
  | nil (w : World σ) : Attended classes ctx w [] w
  | cons {w w' w'' : World σ} {t : Turn} {turns : List Turn} (hturn : t.Taken classes ctx w w')
      (hrest : Attended classes ctx w' turns w'') : Attended classes ctx w (t :: turns) w''

/-- The turns answer all that an inquiry asks, in order, up to the result or the first step that
fails. -/
inductive Inquiry.Unfolds : Inquiry α → List Turn → Except EvalError α → Prop
  | done (x : α) : Unfolds (.done x) [] (.ok x)
  | failed {t : Turn} {next : Value → Inquiry α} {e : EvalError} (h : t.answer = .error e) :
      Unfolds (.ask t.step next) [t] (.error e)
  | answered {t : Turn} {turns : List Turn} {next : Value → Inquiry α} {value : Value}
      {result : Except EvalError α} (h : t.answer = .ok value)
      (hrest : (next value).Unfolds turns result) :
      Unfolds (.ask t.step next) (t :: turns) result

variable {classes : Registry σ} {ctx : Context σ} {w w' : World σ}

namespace Navigation

/-- Null handlers have no part in what a step comes to by itself. -/
theorem bare_withNulls (nulls : NullHandlers σ) : ∀ step : Step,
    bare classes { ctx with nulls } step = bare classes ctx step
  | .property _ (.name _) => rfl
  | .property _ (.index _) => rfl
  | .property _ (.subscript _) => rfl
  | .method _ _ _ => rfl

theorem take_of_kept {step : Step} {result : Except EvalError Value}
    (h : bare classes ctx step w = (result, w'))
    (hkept : result = .ok .null → ctx.nulls.handler? step.target.typeName = none) :
    take classes ctx step w = (result, w'.record (.navigated step result)) := by
  cases result with
  | error e => simp [take, navigate, World.recording, Action.bind_apply, h]
  | ok value =>
    cases hvalue : value.isNull with
    | false => simp [take, navigate, World.recording, Action.bind_apply, h, hvalue]
    | true =>
      obtain rfl : value = .null := by
        cases value <;> first | rfl | cases hvalue
      simp [take, navigate, World.recording, Action.bind_apply, h, hvalue, NullHandlers.fill,
        hkept rfl]

theorem take_of_filled {step : Step} {slot : Option String} {handler : NullHandler σ}
    {value : Value} {host : σ} (h : bare classes ctx step w = (.ok .null, w'))
    (hhandler : ctx.nulls.handler? step.target.typeName = some (slot, handler))
    (hanswer : handler.answer ctx.toBindings step w'.host = (value, host)) :
    take classes ctx step w = (.ok value,
      { w'.record (.navigated step (.ok .null)) with host }.record
        (.substituted slot step value)) := by
  simp [take, navigate, World.recording, Action.bind_apply, h, Value.isNull, NullHandlers.fill,
    World.record, hhandler, hanswer]

end Navigation

namespace Turn.Taken

variable {t : Turn}

/-- A turn is what evaluation makes of its step. -/
theorem take_eq (h : t.Taken classes ctx w w') {result : Except EvalError Value}
    (hanswer : t.answer = result) : Navigation.take classes ctx t.step w = (result, w') := by
  subst hanswer
  cases h with
  | kept hrun hkept =>
    rw [Navigation.bare_withNulls] at hrun
    exact Navigation.take_of_kept hrun fun hnull => NullHandlers.not_registered_iff.1 (hkept hnull)
  | filled hrun hhandler hanswer =>
    rw [Navigation.bare_withNulls] at hrun
    exact Navigation.take_of_filled hrun (NullHandlers.registered_iff.1 hhandler) hanswer

end Turn.Taken

theorem Navigation.exists_taken (classes : Registry σ) (ctx : Context σ) (step : Step)
    (w : World σ) : ∃ t : Turn, t.step = step ∧
      ∃ w', t.Taken classes ctx w w' := by
  rcases hrun : bare classes ctx step w with ⟨result, u⟩
  rw [← bare_withNulls NullHandlers.none] at hrun
  by_cases hnull : result = .ok .null
  · subst hnull
    cases hhandler : ctx.nulls.handler? step.target.typeName with
    | none => exact ⟨_, rfl, _, .kept hrun fun _ => NullHandlers.not_registered_iff.2 hhandler⟩
    | some entry => exact ⟨_, rfl, _, .filled hrun (NullHandlers.registered_iff.2 hhandler) rfl⟩
  · exact ⟨_, rfl, _, .kept hrun fun h => absurd h hnull⟩

/-! ## Runs -/

namespace Inquiry

theorem run_of_attended {i : Inquiry α} {turns : List Turn} {result : Except EvalError α}
    (h : i.Unfolds turns result) (hturns : Attended classes ctx w turns w') :
    i.run (Navigation.take classes ctx) w = (result, w') := by
  induction h generalizing w with
  | done x =>
    cases hturns
    rfl
  | failed hanswer =>
    obtain _ | ⟨hturn, ⟨⟩⟩ := hturns
    exact Action.bind_of_error (hturn.take_eq hanswer)
  | answered hanswer _ ih =>
    obtain _ | ⟨hturn, hrest⟩ := hturns
    rw [run, Action.bind_of_ok (hturn.take_eq hanswer)]
    exact ih hrest

theorem exists_attended (classes : Registry σ) (ctx : Context σ) (i : Inquiry α) (w : World σ) :
    ∃ turns, Attended classes ctx w turns (i.run (Navigation.take classes ctx) w).2 ∧
      i.Unfolds turns (i.run (Navigation.take classes ctx) w).1 := by
  induction i generalizing w with
  | done x => exact ⟨[], .nil w, .done x⟩
  | ask step next ih =>
    obtain ⟨t, rfl, w', hturn⟩ := Navigation.exists_taken classes ctx step w
    cases hanswer : t.answer with
    | error e =>
      rw [run, Action.bind_of_error (hturn.take_eq hanswer)]
      exact ⟨[t], .cons hturn (.nil w'), .failed hanswer⟩
    | ok value =>
      rw [run, Action.bind_of_ok (hturn.take_eq hanswer)]
      obtain ⟨turns, hrest, hunfolds⟩ := ih value w'
      exact ⟨t :: turns, .cons hturn hrest, .answered hanswer hunfolds⟩

end Inquiry

/-! ## What the trail tells of a run -/

theorem Turn.Taken.remarks_eq {t : Turn} (h : t.Taken classes ctx w w') :
    w'.remarks = w.remarks ++ t.remarks := by
  cases h with
  | kept hrun _ =>
    have hsilent := (Silent.bare _).remarks_eq hrun
    rw [World.remarks_record _ rfl, hsilent]
    rfl
  | @filled u step slot _ value host hrun _ _ =>
    have hsilent := (Silent.bare _).remarks_eq hrun
    have hhost : ({ u.record (.navigated step (.ok .null)) with host } : World σ).remarks =
      (u.record (.navigated step (.ok .null))).remarks := rfl
    rw [World.remarks_record _ rfl, hhost, World.remarks_record _ rfl, hsilent, List.append_assoc]
    rfl

theorem Attended.remarks_eq {turns : List Turn} (h : Attended classes ctx w turns w') :
    w'.remarks = w.remarks ++ turns.flatMap Turn.remarks := by
  induction h with
  | nil w => simp
  | cons hturn _ ih => rw [ih, hturn.remarks_eq, List.flatMap_cons, List.append_assoc]

/-! ## Runs without null -/

/-- A navigation step that came to null. -/
def Event.isNullStep : Event → Bool
  | navigated _ (.ok .null) => true
  | _ => false

def Event.isSubstitution : Event → Bool
  | substituted _ _ _ => true
  | _ => false

theorem Event.isSubstitution_of_isRemark {event : Event} (h : event.isRemark = false) :
    event.isSubstitution = false := by
  cases event <;> first | rfl | cases h

namespace Attended

variable {turns : List Turn}

theorem withNulls (nulls : NullHandlers σ) (h : Attended classes ctx w turns w')
    (hnull : ∀ t ∈ turns, t.result ≠ .ok .null) :
    Attended classes { ctx with nulls } w turns w' := by
  induction h with
  | nil w => exact .nil w
  | cons hturn _ ih =>
    rw [List.forall_mem_cons] at hnull
    refine .cons ?_ (ih hnull.2)
    cases hturn with
    | kept hrun _ => exact .kept hrun fun h => absurd h hnull.1
    | filled => exact absurd rfl hnull.1

theorem substitute_eq_none (h : Attended classes ctx w turns w')
    (hnull : ∀ t ∈ turns, t.result ≠ .ok .null) : ∀ t ∈ turns, t.substitute = none := by
  induction h with
  | nil w => exact List.forall_mem_nil _
  | cons hturn _ ih =>
    rw [List.forall_mem_cons] at hnull ⊢
    refine ⟨?_, ih hnull.2⟩
    cases hturn with
    | kept => rfl
    | filled => exact absurd rfl hnull.1

end Attended

/-- Null handlers bear on a run by their answers to null only. If no navigation step of an
evaluation comes to null, no handler is asked, and with any other null handlers the outcome and the
world afterwards are the same. In general an evaluation is a sequence of turns that answers the
expression's inquiry. In each turn one step is taken as if there were no null handlers. Only if it
comes to null, the handler for the type of its target, or else the fallback, is asked, once and for
this step, and the answer takes the place of the null. The trail tells of these turns and of no
other substitution. The policy sees the bindings only, not the handlers that are replaced. -/
theorem null_handlers_extend_conservatively (classes : Registry σ) (ctx : Context σ) (e : Expr)
    (here : Value) (w : World σ) :
    let run := e.evaluate classes ctx here w
    (w.GrowsBy (fun event => event.isNullStep = false) run.2 →
      w.GrowsBy (fun event => event.isSubstitution = false) run.2 ∧
        ∀ nulls, e.evaluate classes { ctx with nulls } here w = run) ∧
    ∃ turns, Attended classes ctx w turns run.2 ∧
      (e.inquiry ctx.toBindings here).Unfolds turns run.1 ∧
      run.2.remarks = w.remarks ++ turns.flatMap Turn.remarks := by
  intro run
  obtain ⟨turns, hturns, hunfolds⟩ :=
    Inquiry.exists_attended classes ctx (e.inquiry ctx.toBindings here) w
  rw [Expr.run_inquiry] at hturns hunfolds
  have hremarks := hturns.remarks_eq
  refine ⟨?_, turns, hturns, hunfolds, hremarks⟩
  intro hgrows
  have htold := hgrows.forall_told hremarks
  have hnull : ∀ t ∈ turns, t.result ≠ .ok .null := by
    intro t ht hresult
    have hevent := htold _ (List.mem_flatMap.2 ⟨t, ht, t.navigated_mem_remarks⟩)
    rw [hresult] at hevent
    cases hevent
  refine ⟨hgrows.of_told hremarks ?_ fun _ => Event.isSubstitution_of_isRemark, fun nulls => ?_⟩
  · intro event hmem
    obtain ⟨t, ht, hevent⟩ := List.mem_flatMap.1 hmem
    rw [Turn.remarks_of_none (hturns.substitute_eq_none hnull t ht)] at hevent
    rw [List.mem_singleton.1 hevent]
    rfl
  · rw [← Expr.run_inquiry]
    exact Inquiry.run_of_attended hunfolds (hturns.withNulls nulls hnull)

/-- The handler has a length to offer for a missing name, but a present one does not ask it. -/
theorem null_handlers_unasked_for_present_entry :
    let root := Value.map (Dict.empty.insert "name" (.string "ada"))
    let ctx : Context Unit :=
      { Context.new root with nulls := ⟨some (.constant (.string "?")), Dict.empty⟩ }
    let classes : Registry Unit := fun _ => ClassTable.empty
    let length (name : String) := Expr.chain [.property name, .property "length"]
    let run (ctx : Context Unit) (e : Expr) := e.evaluate classes ctx root (World.start ())
    (run ctx (length "nick")).1 = .ok (.integer 1) ∧
      (run ctx (length "name")).1 = .ok (.integer 3) ∧
      ∀ nulls, run { ctx with nulls } (length "name") = run ctx (length "name") := by
  intro root ctx classes length run
  obtain ⟨hsame, -⟩ :=
    null_handlers_extend_conservatively classes ctx (length "name") root (World.start ())
  refine ⟨rfl, rfl, (hsame ⟨[.navigated (.property root (.name "name")) (.ok (.string "ada")),
    .navigated (.property (.string "ada") (.name "length")) (.ok (.integer 3))], rfl, ?_⟩).2⟩
  simp [Event.isNullStep]

end ObjectGraph
