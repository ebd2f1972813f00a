import ObjectGraph.Proofs.Gate
import ObjectGraph.Proofs.GenerationFrame

/-!
# Wider policies

A policy of switches is wider than another when every switch that is on there is on here. What
succeeds under a policy goes the same way under a wider one, down to the trail: a success never
met a denial, since nothing recovers from one, and a permitted access does the same under both.
-/
namespace ObjectGraph

variable {S σ ε δ α β : Type}

namespace VisibilityPolicy

instance : LE VisibilityPolicy where
  le p q := (p.allowPrivate → q.allowPrivate) ∧ (p.allowProtected → q.allowProtected) ∧
    (p.allowPackage → q.allowPackage)

instance (p q : VisibilityPolicy) : Decidable (p ≤ q) :=
  inferInstanceAs (Decidable (_ ∧ _ ∧ _))

variable {p q : VisibilityPolicy}

theorem permits_of_le (h : p ≤ q) {v : Visibility} (hv : p.permits v = true) :
    q.permits v = true := by
  obtain ⟨hprivate, hprotected, hpackage⟩ := h
  cases v with
  | isPublic => rfl
  | isPrivate => exact hprivate hv
  | isProtected => exact hprotected hv
  | isPackage => exact hpackage hv

/-- A permitted access does not depend on what else is permitted. -/
theorem elevated_of_le (h : p ≤ q) (b : Bindings) (access : Access) (attempt : Attempt σ α)
    (w : World σ) (hp : p.permits access.member.visibility = true) :
    elevated q.toPolicy b access attempt w = elevated p.toPolicy b access attempt w := by
  have hq : q.permits access.member.visibility = true := permits_of_le h hp
  cases hflag : (w.grants access.member).flag with
  | true =>
    rw [p.elevated_of_flagged b attempt w hp hflag, q.elevated_of_flagged b attempt w hq hflag]
  | false =>
    rw [p.elevated_of_unflagged b attempt w hp hflag, q.elevated_of_unflagged b attempt w hq hflag]

end VisibilityPolicy

namespace Action

/-- Wherever the first action succeeds, the second does the same. -/
def SucceedsAs (a a' : Action S ε α) : Prop :=
  ∀ ⦃s : S⦄ ⦃x : α⦄ ⦃t : S⦄, a s = (.ok x, t) → a' s = (.ok x, t)

namespace SucceedsAs

theorem refl (a : Action S ε α) : a.SucceedsAs a := fun _ _ _ h => h

theorem fail (e : ε) (a : Action S ε α) : (Action.fail e : Action S ε α).SucceedsAs a := nofun

theorem sequenced : Sequenced fun {_} (a a' : Action S ε _) => a.SucceedsAs a' where
  pure x := refl _
  bind {_ _ a a' f f'} ha hf := by
    intro s y t h
    obtain ⟨x, u, hx, hy⟩ := bind_eq_ok.1 h
    exact bind_eq_ok.2 ⟨x, u, ha hx, hf x hy⟩

end SucceedsAs
end Action

/-! ## Evaluation -/

namespace Navigation

variable {classes : Registry σ} {ctx : Context σ} {p q : VisibilityPolicy}

theorem succeedsAs_reach (h : p ≤ q) (hctx : ctx.policy = p.toPolicy) (o : ObjectRef)
    (member : Member) (property : String) (attempt : Attempt σ α) :
    (reach ctx o member property attempt).SucceedsAs
      (reach (ctx.withPolicy q.toPolicy) o member property attempt) := by
  intro w x w' hr
  rw [reach, hctx] at hr
  cases hp : p.permits member.visibility with
  | false =>
    rw [p.elevated_of_denied _ attempt w hp] at hr
    cases hr
  | true =>
    rw [← hr]
    exact VisibilityPolicy.elevated_of_le h _ _ attempt w hp

theorem succeedsAs_navigate (P : Policy σ) (step : Step) {a a' : Run σ EvalError Value}
    (ha : a.SucceedsAs a') :
    (navigate ctx step a).SucceedsAs (navigate (ctx.withPolicy P) step a') := by
  have hrecording : (World.recording (.navigated step) a).SucceedsAs
      (World.recording (.navigated step) a') := by
    intro w x w' hr
    rcases hrun : a w with ⟨r, u⟩
    simp only [World.recording, hrun, Prod.mk.injEq] at hr
    obtain ⟨rfl, rfl⟩ := hr
    rw [World.recording, ha hrun]
  exact Action.SucceedsAs.sequenced.bind hrecording fun _ => .refl _

theorem reachRelated_of_le (h : p ≤ q) (hctx : ctx.policy = p.toPolicy) :
    ReachRelated classes ctx (ctx.withPolicy q.toPolicy)
      fun {_} (a a' : Run σ EvalError _) => a.SucceedsAs a' where
  bindings := rfl
  fail _ := .refl _
  navigate step _ _ ha := succeedsAs_navigate q.toPolicy step ha
  assigning _ _ _ := .refl _
  reach o member property attempt _ := succeedsAs_reach h hctx o member property attempt

theorem succeedsAs_evaluate (h : p ≤ q) (hctx : ctx.policy = p.toPolicy) (e : Expr)
    (here : Value) :
    (e.evaluate classes ctx here).SucceedsAs
      (e.evaluate classes (ctx.withPolicy q.toPolicy) here) :=
  (reachRelated_of_le h hctx).evaluate Action.SucceedsAs.sequenced e here

end Navigation

/-! ## Assignment and generation -/

/-- Wherever the first action succeeds in a session under the one policy, it keeps the policy, and
the second action does the same in that session under the other. -/
def CarriesOver (P Q : Policy σ) (g g' : Action (Session σ) ε α) : Prop :=
  ∀ ⦃s : Session σ⦄ ⦃x : α⦄ ⦃t : Session σ⦄, s.context.policy = P → g s = (.ok x, t) →
    t.context.policy = P ∧ g' (s.withPolicy Q) = (.ok x, t.withPolicy Q)

namespace CarriesOver

variable {P Q : Policy σ} {p q : VisibilityPolicy} {classes : Registry σ}

theorem pure (x : α) :
    CarriesOver P Q (Pure.pure x : Action (Session σ) ε α) (Pure.pure x) := by
  rintro s _ _ hs ⟨⟩
  exact ⟨hs, rfl⟩

theorem fail (e : ε) (g : Action (Session σ) ε α) : CarriesOver P Q (Action.fail e) g := by
  rintro s x t - ⟨⟩

theorem sequenced : Sequenced fun {_} (g g' : Action (Session σ) ε _) => CarriesOver P Q g g' where
  pure := pure
  bind {_ _ g g' f f'} hg hf := by
    intro s y t hs h
    obtain ⟨x, u, hx, hy⟩ := Action.bind_eq_ok.1 h
    obtain ⟨hu, hx'⟩ := hg hs hx
    obtain ⟨ht, hy'⟩ := hf x hu hy
    exact ⟨ht, Action.bind_eq_ok.2 ⟨x, u.withPolicy Q, hx', hy'⟩⟩

theorem change {f : Context σ → Context σ}
    (hf : ∀ ctx : Context σ, (f ctx).policy = ctx.policy)
    (hwith : ∀ ctx : Context σ, f (ctx.withPolicy Q) = (f ctx).withPolicy Q) :
    CarriesOver P Q (Session.change f : Action (Session σ) ε Unit) (Session.change f) := by
  rintro s _ _ hs ⟨⟩
  refine ⟨(hf s.context).trans hs, ?_⟩
  simp [Session.change, Session.withPolicy, hwith]

theorem current {f f' : Context σ → Action (Session σ) ε α}
    (hf : ∀ ctx ctx' : Context σ, ctx.Alike ctx' → CarriesOver P Q (f ctx) (f' ctx')) :
    CarriesOver P Q (Session.current >>= f) (Session.current >>= f') :=
  fun s _ _ hs h => hf s.context _ (s.context.alike_withPolicy Q) hs h

theorem reading {f f' : Context σ → Run σ ε α}
    (hf : ∀ ctx, ctx.policy = P → (f ctx).SucceedsAs (f' (ctx.withPolicy Q))) :
    CarriesOver P Q (Session.reading f) (Session.reading f') := by
  intro s x t hs h
  rcases hrun : f s.context s.world with ⟨r, w⟩
  simp only [Session.reading, hrun, Prod.mk.injEq] at h
  obtain ⟨rfl, rfl⟩ := h
  refine ⟨hs, ?_⟩
  simp only [Session.reading, Session.withPolicy, hf s.context hs hrun]

theorem mapError {g g' : Action (Session σ) ε α} (hg : CarriesOver P Q g g') (f : ε → δ) :
    CarriesOver P Q (g.mapError f) (g'.mapError f) := by
  intro s x t hs h
  obtain ⟨ht, hr⟩ := hg hs (Action.mapError_eq_ok.1 h)
  exact ⟨ht, Action.mapError_eq_ok.2 hr⟩

theorem keepingPlace {g g' : Generation σ α} (hg : CarriesOver P Q g g') :
    CarriesOver P Q (Generation.keepingPlace g) (Generation.keepingPlace g') := by
  intro s x t hs h
  obtain ⟨u, hr, rfl⟩ := Generation.keepingPlace_eq_ok.1 h
  obtain ⟨hu, hr'⟩ := hg hs hr
  exact ⟨hu, Generation.keepingPlace_eq_ok.2 ⟨u.withPolicy Q, hr', rfl⟩⟩

theorem assign (h : p ≤ q) (e : Expr) (here value : Value) :
    CarriesOver p.toPolicy q.toPolicy (e.assign classes here value)
      (e.assign classes here value) := by
  have hsteps : AssignRelated classes classes fun {_} (g g' : Action (Session σ) EvalError _) =>
      CarriesOver p.toPolicy q.toPolicy g g' := {
    fail := fun what => .fail _ _
    setVariable := fun name value => change (fun _ => rfl) fun _ => rfl
    key := fun key => reading fun ctx hctx =>
      Navigation.succeedsAs_evaluate h hctx key ctx.root
    link := fun link here => reading fun ctx hctx =>
      Navigation.succeedsAs_evaluate h hctx link here
    property := fun here name value => reading fun ctx hctx =>
      (Navigation.reachRelated_of_le h hctx).setProperty Action.SucceedsAs.sequenced here name
        value
    index := fun here key value => reading fun ctx hctx =>
      (Navigation.reachRelated_of_le h hctx).setIndex Action.SucceedsAs.sequenced here key
        value }
  exact e.related_assign sequenced hsteps here value

/-- A check that is passed asks the policy once and gets the same answer from a wider one. -/
theorem checkAccess (h : p ≤ q) (e : Expr) (o : ObjectRef) (member : Member) (name : String) :
    CarriesOver p.toPolicy q.toPolicy
      (Generation.checkAccess e o member name : Generation σ Unit)
      (Generation.checkAccess e o member name) := by
  intro s x t hs hr
  cases hp : p.permits member.visibility with
  | false =>
    simp [Generation.checkAccess, Action.bind_apply, Session.reading, hs, Policy.ask_apply,
      VisibilityPolicy.toPolicy, hp] at hr
  | true =>
    have hq : q.permits member.visibility = true := VisibilityPolicy.permits_of_le h hp
    simp only [Generation.checkAccess, Action.bind_apply, Session.reading, hs, Policy.ask_apply,
      VisibilityPolicy.toPolicy, hp] at hr
    cases hr
    refine ⟨hs, ?_⟩
    simp [Generation.checkAccess, Action.bind_apply, Session.reading, Policy.ask_apply,
      Session.withPolicy, Context.withPolicy, VisibilityPolicy.toPolicy, hq]

theorem checks (h : p ≤ q) : CheckRelated
    fun {_} (g g' : Generation σ _) => CarriesOver p.toPolicy q.toPolicy g g' where
  access := checkAccess h
  missing _ _ _ := .fail _ _

theorem generate (h : p ≤ q) (e : Expr) (target : Value) :
    CarriesOver p.toPolicy q.toPolicy (e.generate classes target) (e.generate classes target) := by
  have hsteps : RenderRelated classes classes
      fun {_} (g g' : Generation σ _) => CarriesOver p.toPolicy q.toPolicy g g' := {
    current := current
    setHint := fun hint => change (fun _ => rfl) fun _ => rfl
    setPlace := fun place => change (fun _ => rfl) fun _ => rfl
    keepingPlace := keepingPlace
    within := fun e _ _ hg => hg.mapError (GenerationError.within e)
    checkProperty := (checks h).property sequenced classes
    checkMethod := (checks h).method sequenced classes
    stepping := fun whole link here =>
      (reading fun ctx hctx =>
        Navigation.succeedsAs_evaluate h hctx link here).mapError (GenerationError.failed whole) }
  exact e.related_generate sequenced hsteps target

end CarriesOver

/-- Whatever is evaluated, assigned through or generated with success under a policy of switches,
comes under every wider policy to the same result, by the same uses of host code in the same
order, and leaves the same world and the same context. The null handlers are the same under both
policies, and they see the bindings only, so they cannot tell which of the two is in force. -/
theorem success_kept_by_wider_policy {p q : VisibilityPolicy} (h : p ≤ q) (classes : Registry σ)
    (s : Session σ) (hs : s.context.policy = p.toPolicy) (e : Expr) (here value : Value) :
    (∀ v w, e.evaluate classes s.context here s.world = (.ok v, w) →
      e.evaluate classes (s.context.withPolicy q.toPolicy) here s.world = (.ok v, w)) ∧
    (∀ t, e.assign classes here value s = (.ok (), t) →
      e.assign classes here value (s.withPolicy q.toPolicy) =
        (.ok (), t.withPolicy q.toPolicy)) ∧
    (∀ fragment t, e.generate classes here s = (.ok fragment, t) →
      e.generate classes here (s.withPolicy q.toPolicy) =
        (.ok fragment, t.withPolicy q.toPolicy)) :=
  ⟨fun _ _ hr => Navigation.succeedsAs_evaluate h hs e here hr,
    fun _ hr => (CarriesOver.assign h e here value hs hr).2,
    fun _ _ hr => (CarriesOver.generate h e here hs hr).2⟩

/-- A protected method that counts its calls, reached with protected members allowed and then with
all of them. -/
theorem success_kept_of_protected_method :
    let meter : ClassTable Int64 :=
      ClassTable.build [.method "tick" .isProtected 0 fun _ _ n => (.ok (.integer (n + 1)), n + 1)]
    let p : VisibilityPolicy := ⟨false, true, false⟩
    let ctx : Context Int64 := Context.new (.object ⟨⟨0, "Meter"⟩, "m"⟩)
    let s : Session Int64 := ⟨ctx.withPolicy p.toPolicy, World.start 41⟩
    let evaluate (q : VisibilityPolicy) := (Expr.property "tick").evaluate (fun _ => meter)
      (ctx.withPolicy q.toPolicy) ctx.root s.world
    p ≤ .all true ∧ (evaluate p).1 = .ok (.integer 42) ∧ (evaluate p).2.host = 42 ∧
      evaluate (.all true) = evaluate p := by
  intro meter p ctx s evaluate
  have hle : p ≤ .all true := by decide
  have hrun : evaluate p = (.ok (.integer 42), (evaluate p).2) := rfl
  obtain ⟨hkept, -⟩ := success_kept_by_wider_policy hle (fun _ => meter) s rfl (.property "tick")
    ctx.root .null
  exact ⟨hle, rfl, rfl, (hkept _ _ hrun).trans hrun.symm⟩

end ObjectGraph
