import ObjectGraph.Proofs.SessionSequencing

/-!
# Effects of whole runs

An effect says what a run does to the world, in view of the error that ends it, if one does. An
effect that composes and that every passage through a policy's gate has is the effect of
evaluation, of assignment and of generation under that policy.
-/
namespace ObjectGraph

/-- The error of an outcome. -/
def errorOf {ε α : Type} : Except ε α → Option ε
  | .ok _ => none
  | .error e => some e

@[simp] theorem errorOf_ok {ε α : Type} (x : α) : errorOf (.ok x : Except ε α) = none := rfl

@[simp] theorem errorOf_error {ε α : Type} (e : ε) : errorOf (.error e : Except ε α) = some e := rfl

theorem eq_error_of_errorOf {ε α : Type} {r : Except ε α} {e : ε} (h : errorOf r = some e) :
    r = .error e := by
  cases r with
  | ok x => cases h
  | error e' => exact congrArg _ (Option.some.inj h)

@[simp] theorem errorOf_mapError {ε δ α : Type} (f : ε → δ) (r : Except ε α) :
    errorOf (r.mapError f) = (errorOf r).map f := by
  cases r <;> rfl

@[simp] theorem GenerationError.origin_comp_failed (e : Expr) :
    GenerationError.origin ∘ GenerationError.failed e = id := rfl

@[simp] theorem GenerationError.origin_comp_within (e : Expr) :
    GenerationError.origin ∘ GenerationError.within e = GenerationError.origin := rfl

/-- The world before a run, the error that ends the run, and the world after it. -/
abbrev Effect (σ : Type) := World σ → Option EvalError → World σ → Prop

/-- An event that tells of navigation only. -/
def Event.isRemark : Event → Bool
  | navigated _ _ => true
  | substituted _ _ _ => true
  | assigning _ _ _ => true
  | _ => false

namespace Effect

variable {σ α : Type}

/-- Every run of the action has the effect. -/
def Of (K : Effect σ) (a : Run σ EvalError α) : Prop := ∀ w, K w (errorOf (a w).1) (a w).2

/-- An effect that composes, and that navigation has around its passages to host code. -/
structure Composing (K : Effect σ) : Prop where
  refl (w : World σ) : K w none w
  trans {w w' w'' : World σ} {e : Option EvalError} : K w none w' → K w' e w'' → K w e w''
  fail (w : World σ) {e : EvalError} (he : e.ofNavigation = true) : K w (some e) w
  remark {w w' : World σ} {e : Option EvalError} (h : K w e w') {event : Event}
    (hevent : event.isRemark = true) : K w e (w'.record event)
  host (w : World σ) (host : σ) : K w none { w with host }

namespace Composing

variable {K : Effect σ} {classes : Registry σ} {ctx : Context σ}

theorem bind (hK : K.Composing) {β : Type} {a : Run σ EvalError α} {f : α → Run σ EvalError β}
    (ha : K.Of a) (hf : ∀ x, K.Of (f x)) : K.Of (a >>= f) := by
  intro w
  have hw := ha w
  obtain ⟨e, w', hr, hbind⟩ | ⟨x, w', hr, hbind⟩ := Action.bind_cases a f w
  · rw [hr] at hw
    rw [hbind]
    exact hw
  · rw [hr] at hw
    rw [hbind]
    exact hK.trans hw (hf x w')

theorem sequenced (hK : K.Composing) : Sequenced fun {_} (a _ : Run σ EvalError _) => K.Of a where
  pure _ := hK.refl
  bind ha hf := hK.bind ha hf

theorem fill (hK : K.Composing) (nulls : NullHandlers σ) (b : Bindings) (step : Step) :
    K.Of (nulls.fill b step) := by
  intro w
  unfold NullHandlers.fill
  split
  · exact hK.refl w
  · exact hK.remark (hK.host w _) rfl

theorem navigate (hK : K.Composing) (step : Step) {a : Run σ EvalError Value} (ha : K.Of a) :
    K.Of (Navigation.navigate ctx step a) := by
  have hrecord : K.Of (World.recording (.navigated step) a) := fun w => hK.remark (ha w) rfl
  refine hK.bind hrecord fun value => ?_
  split
  · exact hK.fill ctx.nulls ctx.toBindings step
  · exact hK.refl

/-- Such an effect is the effect of a context's navigation when its passages have it. -/
theorem reachRelated (hK : K.Composing)
    (hreach : ∀ {α : Type} (o : ObjectRef) (member : Member) (property : String)
      {attempt : Attempt σ α}, Accessor classes ⟨.object o, member, property⟩ attempt →
        K.Of (Navigation.reach ctx o member property attempt)) :
    ReachRelated classes ctx ctx fun {_} (a _ : Run σ EvalError _) => K.Of a where
  bindings := rfl
  fail he := fun w => hK.fail w he
  navigate step _ _ h := hK.navigate step h
  assigning _ _ _ := fun w => hK.remark (hK.refl w) rfl
  reach o member property _ h := hreach o member property h

end Composing

/-- An effect that every passage through the gate of a policy has, and all that navigation does
around it. -/
structure Lasting (P : Policy σ) (K : Effect σ) : Prop where
  refl (w : World σ) : K w none w
  trans {w w' w'' : World σ} {e : Option EvalError} : K w none w' → K w' e w'' → K w e w''
  fail (w : World σ) {e : EvalError} (he : e.isAccess = false) : K w (some e) w
  remark {w w' : World σ} {e : Option EvalError} (h : K w e w') {event : Event}
    (hevent : event.isRemark = true) : K w e (w'.record event)
  host (w : World σ) (host : σ) : K w none { w with host }
  ask (b : Bindings) (access : Access) (w : World σ) :
    K w none (P.ask b access w : Except EvalError Bool × World σ).2
  reach (b : Bindings) (access : Access) {α : Type} {attempt : Attempt σ α}
    (h : attempt.Proper) : K.Of (elevated P b access attempt)

namespace Lasting

variable {P : Policy σ} {K : Effect σ} {classes : Registry σ} {ctx : Context σ}

theorem composing (hK : K.Lasting P) : K.Composing where
  refl := hK.refl
  trans := hK.trans
  fail w _ he := hK.fail w (EvalError.isAccess_of_ofNavigation he)
  remark := hK.remark
  host := hK.host

theorem reachRelated (hK : K.Lasting P) (hctx : ctx.policy = P) :
    ReachRelated classes ctx ctx fun {_} (a _ : Run σ EvalError _) => K.Of a := by
  refine hK.composing.reachRelated fun o member property _ h => ?_
  unfold Navigation.reach
  rw [hctx]
  exact hK.reach _ _ h.proper

theorem evaluate (hK : K.Lasting P) (hctx : ctx.policy = P) (e : Expr) (here : Value) :
    K.Of (e.evaluate classes ctx here) :=
  (hK.reachRelated hctx).evaluate hK.composing.sequenced e here

end Lasting

/-! ## Sessions -/

/-- Every run of the action from a session under the policy has the effect, and keeps the
policy. -/
def OfSession (K : Effect σ) (P : Policy σ) {ε : Type} (cause : ε → EvalError)
    (g : Action (Session σ) ε α) : Prop :=
  ∀ s, s.context.policy = P →
    (g s).2.context.policy = P ∧ K s.world ((errorOf (g s).1).map cause) (g s).2.world

namespace Lasting

variable {P : Policy σ} {K : Effect σ} {classes : Registry σ} {ε : Type} {cause : ε → EvalError}

theorem bindSession (hK : K.Lasting P) {β : Type} {g : Action (Session σ) ε α}
    {f : α → Action (Session σ) ε β} (hg : K.OfSession P cause g)
    (hf : ∀ x, K.OfSession P cause (f x)) : K.OfSession P cause (g >>= f) := by
  intro s hs
  obtain ⟨hpolicy, hworld⟩ := hg s hs
  obtain ⟨e, s', hr, hbind⟩ | ⟨x, s', hr, hbind⟩ := Action.bind_cases g f s
  · rw [hr] at hpolicy hworld
    rw [hbind]
    exact ⟨hpolicy, hworld⟩
  · rw [hr] at hpolicy hworld
    rw [hbind]
    obtain ⟨hpolicy', hworld'⟩ := hf x s' hpolicy
    exact ⟨hpolicy', hK.trans hworld hworld'⟩

theorem pureSession (hK : K.Lasting P) (x : α) :
    K.OfSession P cause (pure x : Action (Session σ) ε α) :=
  fun s hs => ⟨hs, hK.refl s.world⟩

theorem sequencedSession (hK : K.Lasting P) :
    Sequenced fun {_} (g _ : Action (Session σ) ε _) => K.OfSession P cause g where
  pure := hK.pureSession
  bind := hK.bindSession

theorem change (hK : K.Lasting P) {f : Context σ → Context σ}
    (hf : ∀ ctx, (f ctx).policy = ctx.policy) :
    K.OfSession P cause (Session.change f : Action (Session σ) ε Unit) :=
  fun s hs => ⟨(hf s.context).trans hs, hK.refl s.world⟩

theorem reading {f : Context σ → Run σ EvalError α}
    (hf : ∀ ctx, ctx.policy = P → K.Of (f ctx)) : K.OfSession P id (Session.reading f) := by
  intro s hs
  refine ⟨hs, ?_⟩
  simpa [Session.reading] using hf s.context hs s.world

theorem assign (hK : K.Lasting P) (e : Expr) (here value : Value) :
    K.OfSession P id (e.assign classes here value) := by
  have h : AssignRelated classes classes
      fun {_} (g _ : Action (Session σ) EvalError _) => K.OfSession P id g := {
    fail := fun what s hs => ⟨hs, hK.fail s.world rfl⟩
    setVariable := fun name value => hK.change fun _ => rfl
    key := fun key => reading fun ctx hctx => hK.evaluate hctx key ctx.root
    link := fun link here => reading fun ctx hctx => hK.evaluate hctx link here
    property := fun here name value => reading fun ctx hctx =>
      (hK.reachRelated hctx).setProperty hK.composing.sequenced here name value
    index := fun here key value => reading fun ctx hctx =>
      (hK.reachRelated hctx).setIndex hK.composing.sequenced here key value }
  exact e.related_assign hK.sequencedSession h here value

theorem failed (hK : K.Lasting P) (e : Expr) {cause : EvalError} (h : cause.isAccess = false) :
    K.OfSession P GenerationError.origin (Action.fail (.failed e cause) : Generation σ α) :=
  fun s hs => ⟨hs, hK.fail s.world h⟩

theorem checkAccess (hK : K.Lasting P) (e : Expr) (o : ObjectRef) (member : Member)
    (name : String) :
    K.OfSession P GenerationError.origin (Generation.checkAccess e o member name) := by
  refine hK.bindSession (fun s hs => ⟨hs, ?_⟩) fun allowed => ?_
  · simp only [Session.reading, hs]
    exact hK.ask _ _ s.world
  · cases allowed with
    | true => exact hK.pureSession ()
    | false => exact hK.failed e rfl

theorem checks (hK : K.Lasting P) :
    CheckRelated fun {_} (g _ : Generation σ _) => K.OfSession P GenerationError.origin g where
  access := hK.checkAccess
  missing e _ _ := hK.failed e rfl

theorem stepping (hK : K.Lasting P) (whole link : Expr) (here : Value) :
    K.OfSession P GenerationError.origin (Generation.stepping classes whole link here) := by
  intro s hs
  have hlink : K.Of (link.evaluate classes s.context here) := hK.evaluate hs link here
  refine ⟨hs, ?_⟩
  simpa [Generation.stepping, Action.mapError, Session.reading] using hlink s.world

theorem generate (hK : K.Lasting P) (e : Expr) (target : Value) :
    K.OfSession P GenerationError.origin (e.generate classes target) := by
  have h : RenderRelated classes classes
      fun {_} (g _ : Generation σ _) => K.OfSession P GenerationError.origin g := {
    current := fun h s hs => h s.context s.context (Context.Alike.refl _) s hs
    setHint := fun hint => hK.change fun _ => rfl
    setPlace := fun place => hK.change fun _ => rfl
    keepingPlace := fun h s hs => h s hs
    within := fun e g _ h s hs => by
      refine ⟨(h s hs).1, ?_⟩
      simpa [Action.mapError] using (h s hs).2
    checkProperty := hK.checks.property hK.sequencedSession classes
    checkMethod := hK.checks.method hK.sequencedSession classes
    stepping := hK.stepping }
  exact e.related_generate hK.sequencedSession h target

end Lasting
end Effect
end ObjectGraph
