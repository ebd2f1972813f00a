import ObjectGraph.Proofs.Effect
import ObjectGraph.Proofs.Gate

/-!
# Passages through the gate

Under any policy whatever, what a run does with the policy and with host code falls into
passages. A passage is about one access: the policy is asked, and then, by its answer, by the
member's flag and by the token that is handed out, the passage takes one of four ways. Only the
last passage of a run can fail, and then the run fails with its error.
-/
namespace ObjectGraph

variable {σ α : Type}

/-- One passage: what is shared before it, its events, the error that ends it, if one does, and
what is shared after it. It is about an access that the class has an accessor for, and host code is
reached through that accessor only. The policy may change whatever it likes whenever it is
called. -/
inductive Passage (classes : Registry σ) (P : Policy σ) (b : Bindings) :
    Shared σ → List Event → Option EvalError → Shared σ → Prop
  /-- The policy says no. -/
  | denied {access : Access} {s s' : Shared σ} {α : Type} {attempt : Attempt σ α}
      (haccessor : Accessor classes access attempt)
      (hask : P.isAccessible b access s = (false, s')) :
      Passage classes P b s [.asked access false (s'.grants access.member).flag]
        (some access.denied) s'
  /-- The member is flagged: one attempt, no setup and no restore. -/
  | direct {access : Access} {s s' : Shared σ} {α : Type} {attempt : Attempt σ α}
      (haccessor : Accessor classes access attempt)
      (hask : P.isAccessible b access s = (true, s'))
      (hflag : (s'.grants access.member).flag = true) :
      Passage classes P b s
        [.asked access true true, .reached access attempt.call (attempt.endingAt s'.host)]
        (errorOf (attempt.resultAt s'.host)) { s' with host := attempt.hostAfter s'.host }
  /-- Setup leaves the member flagged or hands out an elevation: one attempt between one setup
  and one restore of the same token. An error of the attempt wins over one of the restore. -/
  | lent {access : Access} {s s₁ s₂ s₃ : Shared σ} {token : Token}
      {released : Except AccessError Unit} {α : Type} {attempt : Attempt σ α}
      (haccessor : Accessor classes access attempt)
      (hask : P.isAccessible b access s = (true, s₁))
      (hflag : (s₁.grants access.member).flag = false)
      (hsetup : P.setup b access s₁ = (token, s₂))
      (hopen : (s₂.grants access.member).flag = true ∨ token.isElevated = true)
      (hrestore : P.restore b access token { s₂ with host := attempt.hostAfter s₂.host } =
        (released, s₃)) :
      Passage classes P b s
        [.asked access true false, .setUp access token (s₂.grants access.member).flag,
          .reached access attempt.call (attempt.endingAt s₂.host), .restored access token]
        (errorOf (settled (attempt.resultAt s₂.host) released)) s₃
  /-- Setup does neither, whoever else may have elevated the member: no attempt, one restore. -/
  | withheld {access : Access} {s s₁ s₂ s₃ : Shared σ} {token : Token}
      {released : Except AccessError Unit} {α : Type} {attempt : Attempt σ α}
      (haccessor : Accessor classes access attempt)
      (hask : P.isAccessible b access s = (true, s₁))
      (hflag : (s₁.grants access.member).flag = false)
      (hsetup : P.setup b access s₁ = (token, s₂))
      (hclosed : (s₂.grants access.member).flag = false) (htoken : token.isElevated = false)
      (hrestore : P.restore b access token s₂ = (released, s₃)) :
      Passage classes P b s
        [.asked access true false, .setUp access token false, .restored access token]
        (some access.denied) s₃

/-- Passages one after the other, up to one that fails. Between them null handlers may act on the
host, and navigation may end the run with an error of its own. -/
inductive Passages (classes : Registry σ) (P : Policy σ) (b : Bindings) :
    Shared σ → List (List Event) → Option EvalError → Shared σ → Prop
  | done (s : Shared σ) : Passages classes P b s [] none s
  | halted (s : Shared σ) {e : EvalError} (he : e.ofNavigation = true) :
      Passages classes P b s [] (some e) s
  | acted {s s' : Shared σ} {blocks : List (List Event)} {e : Option EvalError} (host : σ)
      (h : Passages classes P b { s with host } blocks e s') : Passages classes P b s blocks e s'
  | passed {s s' s'' : Shared σ} {block : List Event} {blocks : List (List Event)}
      {e : Option EvalError} (hblock : Passage classes P b s block none s')
      (h : Passages classes P b s' blocks e s'') : Passages classes P b s (block :: blocks) e s''
  | failed {s s' : Shared σ} {block : List Event} {e : EvalError}
      (hblock : Passage classes P b s block (some e) s') :
      Passages classes P b s [block] (some e) s'

namespace Passages

variable {classes : Registry σ} {P : Policy σ} {b : Bindings} {s s' s'' : Shared σ}
  {blocks blocks' : List (List Event)} {e : Option EvalError}

theorem of_passage {block : List Event} (h : Passage classes P b s block e s') :
    Passages classes P b s [block] e s' := by
  cases e with
  | none => exact .passed h (.done s')
  | some e => exact .failed h

theorem append (h : Passages classes P b s blocks none s')
    (h' : Passages classes P b s' blocks' e s'') :
    Passages classes P b s (blocks ++ blocks') e s'' := by
  generalize hnone : (none : Option EvalError) = outcome at h
  induction h with
  | done s => exact h'
  | halted s he => cases hnone
  | acted host _ ih => exact .acted host (ih h' hnone)
  | passed hblock _ ih => exact .passed hblock (ih h' hnone)
  | failed hblock => cases hnone

end Passages

namespace World

/-- What was asked of the policy and done with its leave, oldest first. -/
def gateEvents (w : World σ) : List Event := w.trail.toList.filter fun event => !event.isRemark

theorem gateEvents_record {event : Event} (h : event.isRemark = true) (w : World σ) :
    (w.record event).gateEvents = w.gateEvents := by
  simp [gateEvents, record, h]

end World

namespace Effect

variable (classes : Registry σ) (P : Policy σ) (b : Bindings)

/-- The gate's events are those of passages under the policy. -/
def conducted : Effect σ := fun w e w' =>
  ∃ blocks, w'.gateEvents = w.gateEvents ++ blocks.flatten ∧
    Passages classes P b w.toShared blocks e w'.toShared

variable {classes P b}

theorem conducted_of_passage {w w' : World σ} {block : List Event} {e : Option EvalError}
    (hblock : block.filter (fun event => !event.isRemark) = block)
    (htrail : w'.trail.toList = w.trail.toList ++ block)
    (h : Passage classes P b w.toShared block e w'.toShared) : conducted classes P b w e w' := by
  refine ⟨[block], ?_, .of_passage h⟩
  simp [World.gateEvents, htrail, hblock]

variable (classes P b)

theorem composing_conducted : (conducted classes P b : Effect σ).Composing where
  refl w := ⟨[], by simp, .done w.toShared⟩
  trans {w w' w'' e} := by
    rintro ⟨blocks, hevents, h⟩ ⟨blocks', hevents', h'⟩
    refine ⟨blocks ++ blocks', ?_, h.append h'⟩
    rw [hevents', hevents, List.flatten_append, List.append_assoc]
  fail w _ he := ⟨[], by simp, .halted w.toShared he⟩
  remark := by
    rintro w w' e ⟨blocks, hevents, h⟩ event hevent
    exact ⟨blocks, by rw [w'.gateEvents_record hevent, hevents], h⟩
  host w host := ⟨[], (List.append_nil _).symm, .acted host (.done _)⟩

/-- A run of the gate is a passage. -/
theorem conducted_elevated {access : Access} {attempt : Attempt σ α}
    (haccessor : Accessor classes access attempt) :
    (conducted classes P b).Of (elevated P b access attempt) := by
  intro w
  rcases hask : P.isAccessible b access w.toShared with ⟨allowed, s₁⟩
  cases allowed with
  | false =>
    rw [elevated_of_no attempt w hask]
    exact conducted_of_passage rfl (by simp) (.denied haccessor hask)
  | true =>
    cases hflag : (s₁.grants access.member).flag with
    | true =>
      rw [elevated_of_flag attempt w hask hflag, attempt.perform_apply]
      exact conducted_of_passage rfl (by simp [World.record]) (.direct haccessor hask hflag)
    | false =>
      rcases hsetup : P.setup b access s₁ with ⟨token, s₂⟩
      by_cases hopen : (s₂.grants access.member).flag = true ∨ token.isElevated = true
      · rcases hrestore : P.restore b access token { s₂ with host := attempt.hostAfter s₂.host }
          with ⟨released, s₃⟩
        rw [elevated_of_lent attempt w hask hflag hsetup hopen hrestore]
        exact conducted_of_passage rfl Array.toList_append
          (.lent haccessor hask hflag hsetup hopen hrestore)
      · simp only [not_or, Bool.not_eq_true] at hopen
        obtain ⟨hclosed, htoken⟩ := hopen
        rcases hrestore : P.restore b access token s₂ with ⟨released, s₃⟩
        rw [elevated_of_withheld attempt w hask hflag hsetup hclosed htoken hrestore]
        exact conducted_of_passage rfl Array.toList_append
          (.withheld haccessor hask hflag hsetup hclosed htoken hrestore)

end Effect

/-! ## Evaluation and assignment -/

section

variable {classes : Registry σ} {ctx : Context σ}

theorem reachRelated_conducted : ReachRelated classes ctx ctx
    fun {_} (a _ : Run σ EvalError _) =>
      (Effect.conducted classes ctx.policy ctx.toBindings).Of a :=
  (Effect.composing_conducted classes ctx.policy ctx.toBindings).reachRelated
    fun _ _ _ _ h => Effect.conducted_elevated classes ctx.policy ctx.toBindings h

theorem sequenced_conducted : Sequenced
    fun {_} (a _ : Run σ EvalError _) =>
      (Effect.conducted classes ctx.policy ctx.toBindings).Of a :=
  (Effect.composing_conducted classes ctx.policy ctx.toBindings).sequenced

theorem conducted_evaluate (e : Expr) (here : Value) :
    (Effect.conducted classes ctx.policy ctx.toBindings).Of (e.evaluate classes ctx here) :=
  reachRelated_conducted.evaluate sequenced_conducted e here

/-- The passages of a session's action are made under the policy and with the bindings that it
finds. An assignment to a variable changes the bindings, but only at its end. -/
def ConductedFrom (classes : Registry σ) (g : Action (Session σ) EvalError α) (s : Session σ) :
    Prop :=
  Effect.conducted classes s.context.policy s.context.toBindings s.world (errorOf (g s).1)
    (g s).2.world

theorem ConductedFrom.reading {f : Context σ → Run σ EvalError α} {s : Session σ}
    (hf : (Effect.conducted classes s.context.policy s.context.toBindings).Of (f s.context)) :
    ConductedFrom classes (Session.reading f) s := hf s.world

theorem ConductedFrom.bind {β : Type} {f : Context σ → Run σ EvalError α}
    {g : α → Action (Session σ) EvalError β} {s : Session σ}
    (hf : (Effect.conducted classes s.context.policy s.context.toBindings).Of (f s.context))
    (hg : ∀ x world, ConductedFrom classes (g x) { s with world }) :
    ConductedFrom classes (Session.reading f >>= g) s := by
  have hfirst := hf s.world
  unfold ConductedFrom
  obtain ⟨e, u, hr, hbind⟩ | ⟨x, u, hr, hbind⟩ := Action.bind_cases (Session.reading f) g s
  · rw [hbind]
    rw [Session.reading, Prod.mk.injEq] at hr
    rw [hr.1] at hfirst
    rw [← hr.2]
    exact hfirst
  · rw [hbind]
    rw [Session.reading, Prod.mk.injEq] at hr
    rw [hr.1] at hfirst
    rw [← hr.2]
    exact (Effect.composing_conducted _ _ _).trans hfirst (hg x _)

namespace Expr

theorem conducted_refusal (what : String) (s : Session σ) :
    ConductedFrom classes (Action.fail (.notAssignable what) : Action (Session σ) EvalError Unit)
      s :=
  (Effect.composing_conducted _ _ _).fail s.world rfl

mutual
theorem conducted_assign : ∀ (e : Expr) (here value : Value) (s : Session σ),
    ConductedFrom classes (e.assign classes here value) s
  | var _, _, _, s => (Effect.composing_conducted _ _ _).refl s.world
  | property name, here, value, _ =>
    .reading (reachRelated_conducted.setProperty sequenced_conducted here name value)
  | index key, here, value, s =>
    .bind (conducted_evaluate key s.context.root) fun k _ =>
      .reading (reachRelated_conducted.setIndex sequenced_conducted here k value)
  | chain links, here, value, s => conducted_assignLinks links here value s
  | const _, _, _, s => conducted_refusal _ s
  | root, _, _, s => conducted_refusal _ s
  | source, _, _, s => conducted_refusal _ s
  | subscript _, _, _, s => conducted_refusal _ s
  | method _ _, _, _, s => conducted_refusal _ s
  | not _, _, _, s => conducted_refusal _ s
  | logical _ _, _, _, s => conducted_refusal _ s
  | compare _ _ _, _, _, s => conducted_refusal _ s
termination_by structural e => e

theorem conducted_assignLinks : ∀ (links : List Expr) (here value : Value) (s : Session σ),
    ConductedFrom classes (assignLinks classes links here value) s
  | [], _, _, s => conducted_refusal _ s
  | [last], here, value, s => conducted_assign last here value s
  | link :: next :: links, here, value, s =>
    .bind (conducted_evaluate link here) fun target world =>
      conducted_assignLinks (next :: links) target value { s with world }
termination_by structural links => links
end

end Expr
end

/-- Under any policy, whatever is evaluated or assigned through and however it ends: what is asked
of the policy and done with its leave is a concatenation of passages, under the context's policy
and with its bindings, each through the accessor of the member that it is about. All but the last
go well, and when the last one fails, so does the run, with the same error. -/
theorem evaluation_and_assignment_in_passages (classes : Registry σ) (s : Session σ) (e : Expr)
    (here value : Value) :
    let P := s.context.policy
    let b := s.context.toBindings
    let evaluated := e.evaluate classes s.context here s.world
    let assigned := e.assign classes here value s
    (∃ blocks, evaluated.2.gateEvents = s.world.gateEvents ++ blocks.flatten ∧
      Passages classes P b s.world.toShared blocks (errorOf evaluated.1) evaluated.2.toShared) ∧
    (∃ blocks, assigned.2.world.gateEvents = s.world.gateEvents ++ blocks.flatten ∧
      Passages classes P b s.world.toShared blocks (errorOf assigned.1)
        assigned.2.world.toShared) := by
  intro P b evaluated assigned
  exact ⟨conducted_evaluate e here s.world, e.conducted_assign here value s⟩

end ObjectGraph
