import ObjectGraph.Proofs.Balance

/-!
# Independence of grants

Flags and counters are shared by everything that runs, but under a policy of switches no outcome
depends on them: a denied member stays closed although it is flagged or somebody else has elevated
it, and a permitted one is reached although its flag was cleared. So two runs that start from
states that differ in flags and counters only do the same.
-/
namespace ObjectGraph

variable {S σ ε δ α β : Type}

namespace Action

/-- From related states the action comes to one result, and to related states. -/
def Respects (T : S → S → Prop) (a : Action S ε α) : Prop :=
  ∀ ⦃s s' : S⦄, T s s' → ∃ r t t', T t t' ∧ a s = (r, t) ∧ a s' = (r, t')

namespace Respects

variable {T : S → S → Prop} {a : Action S ε α} {f : α → Action S ε β}

theorem pure (x : α) : Respects T (Pure.pure x : Action S ε α) :=
  fun s s' h => ⟨.ok x, s, s', h, rfl, rfl⟩

theorem fail (e : ε) : Respects T (Action.fail e : Action S ε α) :=
  fun s s' h => ⟨.error e, s, s', h, rfl, rfl⟩

theorem modify {f : S → S} (hf : ∀ ⦃s s'⦄, T s s' → T (f s) (f s')) :
    Respects T (Action.modify f : Action S ε Unit) :=
  fun s s' h => ⟨.ok (), f s, f s', hf h, rfl, rfl⟩

theorem bind (ha : Respects T a) (hf : ∀ x, Respects T (f x)) : Respects T (a >>= f) := by
  intro s s' h
  obtain ⟨r, t, t', ht, hr, hr'⟩ := ha h
  cases r with
  | error e => exact ⟨.error e, t, t', ht, bind_of_error hr, bind_of_error hr'⟩
  | ok x =>
    rw [bind_of_ok hr, bind_of_ok hr']
    exact hf x ht

theorem sequenced : Sequenced fun {_} (a _ : Action S ε _) => Respects T a where
  pure := pure
  bind := bind

theorem outcome (ha : Respects T a) {s s' : S} (h : T s s') :
    (a s').1 = (a s).1 ∧ T (a s).2 (a s').2 := by
  obtain ⟨r, t, t', ht, hr, hr'⟩ := ha h
  rw [hr, hr']
  exact ⟨rfl, ht⟩

theorem mapError (ha : Respects T a) (f : ε → δ) : Respects T (a.mapError f) := by
  intro s s' h
  obtain ⟨r, t, t', ht, hr, hr'⟩ := ha h
  refine ⟨r.mapError f, t, t', ht, ?_, ?_⟩
  · rw [Action.mapError, hr]
  · rw [Action.mapError, hr']

end Respects
end Action

/-- An event that tells of the policy or of a grant, and of nothing that was done with leave. -/
def Event.isPolicing : Event → Bool
  | asked _ _ _ => true
  | setUp _ _ _ => true
  | restored _ _ => true
  | _ => false

namespace World

/-- What was done: the uses of host code, navigation and substitutions, oldest first. -/
def doings (w : World σ) : List Event := w.trail.toList.filter fun event => !event.isPolicing

theorem doings_record_of_isPolicing {event : Event} (h : event.isPolicing = true) (w : World σ) :
    (w.record event).doings = w.doings := by
  simp [doings, record, h]

theorem doings_record {event : Event} (h : event.isPolicing = false) (w : World σ) :
    (w.record event).doings = w.doings ++ [event] := by
  simp [doings, record, h]

/-- Two worlds that differ in their flags and counters only, which are these. -/
structure Twins (g g' : Member → Accessibility) (w w' : World σ) : Prop where
  grants : w.grants = g
  grants' : w'.grants = g'
  host : w'.host = w.host
  doings : w'.doings = w.doings

namespace Twins

variable {g g' : Member → Accessibility} {w w' : World σ}

theorem record (h : Twins g g' w w') (event : Event) :
    Twins g g' (w.record event) (w'.record event) := by
  refine ⟨h.grants, h.grants', h.host, ?_⟩
  cases hevent : event.isPolicing with
  | true => rw [doings_record_of_isPolicing hevent, doings_record_of_isPolicing hevent, h.doings]
  | false => rw [doings_record hevent, doings_record hevent, h.doings]

theorem withHost (h : Twins g g' w w') (host : σ) :
    Twins g g' { w with host } { w' with host } := ⟨h.grants, h.grants', rfl, h.doings⟩

end Twins
end World

/-! ## Passing the gate -/

namespace VisibilityPolicy

variable {p : VisibilityPolicy} (b : Bindings) {access : Access} (attempt : Attempt σ α)
  (w : World σ)

/-- Flagged or elevated, a permitted access comes to what its attempt comes to, and no grant
remains. -/
theorem elevated_of_permitted (h : p.permits access.member.visibility = true)
    (hmax : w.Elevatable) :
    ∃ w', elevated p.toPolicy b access attempt w = (attempt.resultAt w.host, w') ∧
      w'.grants = w.grants ∧ w'.host = attempt.hostAfter w.host ∧
      w'.doings = w.doings ++ [.reached access attempt.call (attempt.endingAt w.host)] := by
  cases hflag : (w.grants access.member).flag with
  | true =>
    rw [p.elevated_of_flagged b attempt w h hflag, attempt.perform_apply]
    refine ⟨_, rfl, rfl, rfl, ?_⟩
    simp [World.doings, World.record, Event.isPolicing]
  | false =>
    have hrelease : release attempt w access =
        (.ok (), { w.toShared with host := attempt.hostAfter w.host }) :=
      Shared.revoke_elevate w.toShared access.member _ (hmax.succ_ne_zero access.member)
    have hsettled : settled (attempt.resultAt w.host) (.ok ()) = attempt.resultAt w.host := by
      cases attempt.resultAt w.host <;> rfl
    rw [p.elevated_of_unflagged b attempt w h hflag, hrelease, hsettled]
    refine ⟨_, rfl, rfl, rfl, ?_⟩
    simp [World.doings, Event.isPolicing]

/-- What an access comes to is a matter of the policy and of host code alone. -/
theorem elevated_result (hmax : w.Elevatable) :
    (elevated p.toPolicy b access attempt w).1 =
      if p.permits access.member.visibility then attempt.resultAt w.host
      else .error access.denied := by
  cases h : p.permits access.member.visibility with
  | false => rw [p.elevated_of_denied b attempt w h, if_neg Bool.false_ne_true]
  | true =>
    obtain ⟨w', hr, -⟩ := elevated_of_permitted b attempt w h hmax
    rw [hr, if_pos rfl]

end VisibilityPolicy

/-! ## Evaluation -/

namespace World.Twins

variable {g g' : Member → Accessibility} {p : VisibilityPolicy}

theorem fill (nulls : NullHandlers σ) (b : Bindings) (step : Step) :
    (nulls.fill b step : Run σ ε Value).Respects (Twins g g') := by
  intro w w' h
  unfold NullHandlers.fill
  split
  · exact ⟨_, w, w', h, rfl, rfl⟩
  · rw [h.host]
    exact ⟨_, _, _, (h.withHost _).record _, rfl, rfl⟩

theorem navigate {ctx : Context σ} (step : Step) {a : Run σ EvalError Value}
    (ha : a.Respects (Twins g g')) :
    (Navigation.navigate ctx step a).Respects (Twins g g') := by
  have hrecord : (World.recording (.navigated step) a).Respects (Twins g g') := by
    intro w w' h
    obtain ⟨r, u, u', hu, hr, hr'⟩ := ha h
    refine ⟨r, _, _, hu.record (.navigated step r), ?_, ?_⟩
    · rw [World.recording, hr]
    · rw [World.recording, hr']
  refine hrecord.bind fun value => ?_
  split
  · exact fill ctx.nulls ctx.toBindings step
  · exact .pure value

theorem ask (b : Bindings) (access : Access) :
    (p.toPolicy.ask b access : Run σ ε Bool).Respects (Twins g g') := by
  intro w w' h
  refine ⟨_, _, _, ?_, rfl, rfl⟩
  refine ⟨h.grants, h.grants', h.host, ?_⟩
  exact (World.doings_record_of_isPolicing rfl w').trans
    (h.doings.trans (World.doings_record_of_isPolicing rfl w).symm)

variable (hmax : ∀ m, (g m).elevations.toNat + 1 < UInt64.size)
  (hmax' : ∀ m, (g' m).elevations.toNat + 1 < UInt64.size)
include hmax hmax'

/-- The gate looks at flags and counters, but nothing comes of it. -/
theorem elevated (b : Bindings) (access : Access) (attempt : Attempt σ α) :
    (elevated p.toPolicy b access attempt).Respects (Twins g g') := by
  intro w w' h
  cases hp : p.permits access.member.visibility with
  | false =>
    rw [p.elevated_of_denied b attempt w hp, p.elevated_of_denied b attempt w' hp]
    refine ⟨_, _, _, ?_, rfl, rfl⟩
    refine ⟨h.grants, h.grants', h.host, ?_⟩
    rw [World.doings_record_of_isPolicing rfl, World.doings_record_of_isPolicing rfl, h.doings]
  | true =>
    have hw : w.Elevatable := by
      intro m
      rw [h.grants]
      exact hmax m
    have hw' : w'.Elevatable := by
      intro m
      rw [h.grants']
      exact hmax' m
    obtain ⟨u, hr, hgrants, hhost, hdoings⟩ := p.elevated_of_permitted b attempt w hp hw
    obtain ⟨u', hr', hgrants', hhost', hdoings'⟩ := p.elevated_of_permitted b attempt w' hp hw'
    rw [h.host] at hr' hhost' hdoings'
    refine ⟨_, u, u', ⟨hgrants.trans h.grants, hgrants'.trans h.grants', ?_, ?_⟩, hr, hr'⟩
    · rw [hhost', hhost]
    · rw [hdoings', hdoings, h.doings]

theorem reachRelated {classes : Registry σ} {ctx : Context σ} (hctx : ctx.policy = p.toPolicy) :
    ReachRelated classes ctx ctx fun {_} (a _ : Run σ EvalError _) => a.Respects (Twins g g') where
  bindings := rfl
  fail _ := .fail _
  navigate step _ _ ha := navigate step ha
  assigning target key value := .modify fun w w' h => h.record (.assigning target key value)
  reach o member property attempt _ := by
    unfold Navigation.reach
    rw [hctx]
    exact elevated hmax hmax' ctx.toBindings _ attempt

theorem evaluate {classes : Registry σ} {ctx : Context σ} (hctx : ctx.policy = p.toPolicy)
    (e : Expr) (here : Value) : (e.evaluate classes ctx here).Respects (Twins g g') :=
  (reachRelated hmax hmax' hctx).evaluate Action.Respects.sequenced e here

end World.Twins

/-! ## Assignment and generation -/

/-- Two sessions of one context under the policy, in two such worlds. -/
structure Session.Twins (P : Policy σ) (g g' : Member → Accessibility) (s s' : Session σ) :
    Prop where
  policy : s.context.policy = P
  context : s'.context = s.context
  world : s.world.Twins g g' s'.world

namespace Session.Twins

variable {P : Policy σ} {p : VisibilityPolicy} {g g' : Member → Accessibility}

theorem withContext {s s' : Session σ} (h : s.Twins P g g' s') {ctx : Context σ}
    (hctx : ctx.policy = P) :
    Twins P g g' { s with context := ctx } { s' with context := ctx } := ⟨hctx, rfl, h.world⟩

theorem change {f : Context σ → Context σ} (hf : ∀ ctx, (f ctx).policy = ctx.policy) :
    (Session.change f : Action (Session σ) ε Unit).Respects (Twins P g g') := by
  refine .modify fun s s' h => ?_
  rw [h.context]
  exact h.withContext ((hf s.context).trans h.policy)

theorem current {f : Context σ → Action (Session σ) ε α}
    (hf : ∀ ctx, (f ctx).Respects (Twins P g g')) :
    (Session.current >>= f).Respects (Twins P g g') := by
  intro s s' h
  obtain ⟨r, t, t', ht, hr, hr'⟩ := hf s.context h
  refine ⟨r, t, t', ht, hr, ?_⟩
  rw [← h.context] at hr'
  exact hr'

theorem reading {f : Context σ → Run σ ε α}
    (hf : ∀ ctx, ctx.policy = P → (f ctx).Respects (World.Twins g g')) :
    (Session.reading f).Respects (Twins P g g') := by
  intro s s' h
  obtain ⟨r, u, u', hu, hr, hr'⟩ := hf s.context h.policy h.world
  refine ⟨r, { s with world := u }, { s' with world := u' }, ⟨h.policy, h.context, hu⟩, ?_, ?_⟩
  · rw [Session.reading, hr]
  · rw [Session.reading, h.context, hr']

theorem keepingPlace {a : Generation σ α} (ha : a.Respects (Twins P g g')) :
    (Generation.keepingPlace a).Respects (Twins P g g') := by
  intro s s' h
  obtain ⟨r, t, t', ht, hr, hr'⟩ := ha h
  refine ⟨r, { t with context := { t.context with place := s.context.place } },
    { t' with context := { t.context with place := s.context.place } },
    ht.withContext ht.policy, ?_, ?_⟩
  · rw [Generation.keepingPlace, hr]
  · rw [Generation.keepingPlace, hr', ht.context, h.context]

variable {classes : Registry σ}

theorem checks :
    CheckRelated fun {_} (a _ : Generation σ _) => a.Respects (Twins p.toPolicy g g') where
  access e o member name := by
    refine .bind (reading fun ctx hctx => ?_) fun allowed => ?_
    · rw [hctx]
      exact World.Twins.ask ctx.toBindings _
    · cases allowed with
      | true => exact .pure ()
      | false => exact .fail _
  missing e target name := .fail _

variable (hmax : ∀ m, (g m).elevations.toNat + 1 < UInt64.size)
  (hmax' : ∀ m, (g' m).elevations.toNat + 1 < UInt64.size)
include hmax hmax'

theorem assign (e : Expr) (here value : Value) :
    (e.assign classes here value).Respects (Twins p.toPolicy g g') := by
  have hsteps : AssignRelated classes classes
      fun {_} (a _ : Action (Session σ) EvalError _) => a.Respects (Twins p.toPolicy g g') := {
    fail := fun what => .fail _
    setVariable := fun name value => change fun _ => rfl
    key := fun key => reading fun ctx hctx =>
      World.Twins.evaluate hmax hmax' hctx key ctx.root
    link := fun link here => reading fun ctx hctx =>
      World.Twins.evaluate hmax hmax' hctx link here
    property := fun here name value => reading fun ctx hctx =>
      (World.Twins.reachRelated hmax hmax' hctx).setProperty Action.Respects.sequenced here name
        value
    index := fun here key value => reading fun ctx hctx =>
      (World.Twins.reachRelated hmax hmax' hctx).setIndex Action.Respects.sequenced here key
        value }
  exact e.related_assign Action.Respects.sequenced hsteps here value

theorem generate (e : Expr) (target : Value) :
    (e.generate classes target).Respects (Twins p.toPolicy g g') := by
  have hsteps : RenderRelated classes classes
      fun {_} (a _ : Generation σ _) => a.Respects (Twins p.toPolicy g g') := {
    current := fun h => current fun ctx => h ctx ctx (Context.Alike.refl ctx)
    setHint := fun hint => change fun _ => rfl
    setPlace := fun place => change fun _ => rfl
    keepingPlace := keepingPlace
    within := fun e _ _ h => h.mapError (GenerationError.within e)
    checkProperty := checks.property Action.Respects.sequenced classes
    checkMethod := checks.method Action.Respects.sequenced classes
    stepping := fun whole link here =>
      (reading fun ctx hctx =>
        World.Twins.evaluate hmax hmax' hctx link here).mapError (GenerationError.failed whole) }
  exact e.related_generate Action.Respects.sequenced hsteps target

end Session.Twins

/-- Under a policy of switches, whatever the flags and the counters: an expression that is
evaluated, assigned through or generated comes to the same result or error, does the same in the
same order and leaves the same host and the same context, and flags and counters as it found
them. At the gate, a denied member is refused and a permitted one is reached. -/
theorem grants_unobservable {p : VisibilityPolicy} (classes : Registry σ) (s : Session σ)
    (hs : s.context.policy = p.toPolicy) (grants' : Member → Accessibility)
    (hmax : ∀ m, (s.world.grants m).elevations.toNat + 1 < UInt64.size)
    (hmax' : ∀ m, (grants' m).elevations.toNat + 1 < UInt64.size) (e : Expr)
    (here value : Value) :
    let s' : Session σ := { s with world := { s.world with grants := grants' } }
    let evaluate := e.evaluate classes s.context here
    let assign := e.assign classes here value
    let generate := e.generate classes here
    ((evaluate s'.world).1 = (evaluate s.world).1 ∧
      (evaluate s.world).2.Twins s.world.grants grants' (evaluate s'.world).2) ∧
    ((assign s').1 = (assign s).1 ∧ (assign s').2.context = (assign s).2.context ∧
      (assign s).2.world.Twins s.world.grants grants' (assign s').2.world) ∧
    ((generate s').1 = (generate s).1 ∧ (generate s').2.context = (generate s).2.context ∧
      (generate s).2.world.Twins s.world.grants grants' (generate s').2.world) ∧
    ∀ (o : ObjectRef) (member : Member) (property : String) (attempt : Attempt σ Value),
      (Navigation.reach s.context o member property attempt s'.world).1 =
        if p.permits member.visibility then attempt.resultAt s.world.host
        else .error (.inaccessible member.cls.name member.name) := by
  intro s' evaluate assign generate
  have hworlds : s.world.Twins s.world.grants grants' s'.world := ⟨rfl, rfl, rfl, rfl⟩
  have hsessions : s.Twins p.toPolicy s.world.grants grants' s' := ⟨hs, rfl, hworlds⟩
  have hevaluate : evaluate.Respects (World.Twins s.world.grants grants') :=
    World.Twins.evaluate hmax hmax' hs e here
  have hassign : assign.Respects (Session.Twins p.toPolicy s.world.grants grants') :=
    Session.Twins.assign hmax hmax' e here value
  have hgenerate : generate.Respects (Session.Twins p.toPolicy s.world.grants grants') :=
    Session.Twins.generate hmax hmax' e here
  obtain ⟨hassigned, hafter⟩ := hassign.outcome hsessions
  obtain ⟨hgenerated, hafter'⟩ := hgenerate.outcome hsessions
  refine ⟨hevaluate.outcome hworlds, ⟨hassigned, hafter.context, hafter.world⟩,
    ⟨hgenerated, hafter'.context, hafter'.world⟩, ?_⟩
  intro o member property attempt
  rw [Navigation.reach, hs]
  exact VisibilityPolicy.elevated_result _ attempt s'.world hmax'

/-- A private field that the host flagged and that another evaluation has elevated. -/
theorem grants_unobservable_of_flagged_private :
    let safe : ClassTable Unit :=
      ClassTable.build [.field "code" .isPrivate fun _ => pure (.integer 42)]
    let s : Session Unit := ⟨Context.new (.object ⟨⟨0, "Safe"⟩, "s"⟩), World.start ()⟩
    let opened : World Unit := { s.world with grants := fun _ => ⟨true, 1⟩ }
    let evaluate := (Expr.property "code").evaluate (fun _ => safe) s.context s.context.root
    (evaluate s.world).1 = .error (.inaccessible "Safe" "code") ∧
      (evaluate opened).1 = (evaluate s.world).1 := by
  intro safe s opened evaluate
  have hmax (m : Member) : (s.world.grants m).elevations.toNat + 1 < UInt64.size :=
    show (0 : UInt64).toNat + 1 < UInt64.size by decide
  have hmax' (m : Member) : (opened.grants m).elevations.toNat + 1 < UInt64.size :=
    show (1 : UInt64).toNat + 1 < UInt64.size by decide
  obtain ⟨⟨hresult, -⟩, -⟩ := grants_unobservable (fun _ => safe) s rfl (fun _ => ⟨true, 1⟩) hmax
    hmax' (.property "code") s.context.root .null
  exact ⟨rfl, hresult⟩

end ObjectGraph
