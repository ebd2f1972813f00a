import ObjectGraph.Proofs.GenerationReuse
import ObjectGraph.Proofs.Renderability

/-!
# Chains within chains

A chain that is a link of another chain stands for its own links. Evaluation goes along all links
in order, assignment along all but the last, so both are determined by the links that are left when
the inner chain is dissolved. Generation evaluates the links of an inner chain twice. Over plain
data this makes no difference, and the text and the hint do not show the nesting either.
-/
namespace ObjectGraph

variable {σ ε α β : Type}

theorem Session.reading_bind (f : Context σ → Run σ ε α) (g : Context σ → α → Run σ ε β) :
    Session.reading (fun ctx => f ctx >>= g ctx) =
      Session.reading f >>= fun x => Session.reading fun ctx => g ctx x := by
  funext s
  simp only [Session.reading, Action.bind_apply]
  rcases f s.context s.world with ⟨_ | _, _⟩ <;> rfl

/-- What comes after a settled action comes to what the two come to together. -/
theorem Steady.of_bind {P : β → Prop} {a : Run σ ε α} {g : α → Run σ ε β} {x : α} {y : β}
    (ha : Steady a (.ok x)) (hg : Settles P (g x)) (h : Steady (a >>= g) (.ok y)) :
    Steady (g x) (.ok y) := by
  obtain ⟨o, hsteady, -, -⟩ := hg
  intro w
  have hboth := ha.bind hsteady w
  rw [h w] at hboth
  rw [hsteady w, hboth]

/-- The context in which the next link is rendered, after one that was rendered to this fragment
with this hint. -/
def Context.afterLink (c : Context σ) (f : Fragment) (hint : Option TypeHint) : Context σ :=
  { c with currentType := hint, place := .group (f.asValue hint) }

variable {classes : Registry σ} {ctx : Context σ}

namespace Expr

/-! ## Evaluation and assignment -/

theorem evaluateLinks_append (xs ys : List Expr) (here : Value) :
    evaluateLinks classes ctx (xs ++ ys) here =
      evaluateLinks classes ctx xs here >>= evaluateLinks classes ctx ys := by
  induction xs generalizing here with
  | nil => rfl
  | cons link xs ih => simp only [List.cons_append, evaluateLinks, bind_assoc, ih]

@[simp] theorem evaluateLinks_singleton (link : Expr) :
    evaluateLinks classes ctx [link] = link.evaluate classes ctx := by
  funext here
  simp only [evaluateLinks, bind_pure]

@[simp] theorem evaluate_chain (links : List Expr) :
    (chain links).evaluate classes ctx = evaluateLinks classes ctx links := rfl

/-- It does not matter to the links after a chain that its links stand in a chain. -/
theorem evaluateLinks_nested (xs ys zs : List Expr) :
    evaluateLinks classes ctx (xs ++ [chain ys] ++ zs) =
      evaluateLinks classes ctx (xs ++ ys ++ zs) := by
  funext here
  simp only [evaluateLinks_append, evaluateLinks_singleton, evaluate_chain]

theorem assignLinks_cons (link : Expr) {links : List Expr} (h : links ≠ []) (here value : Value) :
    assignLinks classes (link :: links) here value =
      Session.reading (fun ctx => link.evaluate classes ctx here) >>= fun target =>
        assignLinks classes links target value := by
  cases links with
  | nil => exact absurd rfl h
  | cons next links => rfl

theorem assignLinks_append (xs : List Expr) {ys : List Expr} (h : ys ≠ []) (here value : Value) :
    assignLinks classes (xs ++ ys) here value =
      Session.reading (fun ctx => evaluateLinks classes ctx xs here) >>= fun target =>
        assignLinks classes ys target value := by
  induction xs generalizing here with
  | nil => rfl
  | cons link xs ih =>
    rw [List.cons_append, assignLinks_cons link (List.append_ne_nil_of_right_ne_nil xs h)]
    simp only [ih, evaluateLinks, Session.reading_bind, bind_assoc]

/-- The inner chain is evaluated if links follow it, and assigned through if it is the last. -/
theorem assign_chain_nested (xs : List Expr) {ys : List Expr} (h : ys ≠ []) (zs : List Expr)
    (here value : Value) :
    (chain (xs ++ [chain ys] ++ zs)).assign classes here value =
      (chain (xs ++ ys ++ zs)).assign classes here value := by
  simp only [assign]
  by_cases hzs : zs = []
  · subst hzs
    simp only [List.append_nil]
    rw [assignLinks_append xs (List.cons_ne_nil _ _), assignLinks_append xs h]
    rfl
  · simp only [assignLinks_append _ hzs, evaluateLinks_append, evaluateLinks_singleton,
      evaluate_chain]

/-! ## Generation -/

/-- In some world, the expression is rendered in this context to this fragment with this hint. -/
def Gives (classes : Registry σ) (e : Expr) (here : Value) (c : Context σ) (f : Fragment)
    (hint : Option TypeHint) : Prop :=
  ∃ w w', e.generate classes here ⟨c, w⟩ = (.ok f, ⟨{ c with currentType := hint }, w'⟩)

variable {here : Value} {c : Context σ} {f : Fragment} {hint : Option TypeHint}

theorem context_of_generate {e : Expr} {s t : Session σ}
    (h : e.generate classes here s = (.ok f, t)) :
    t.context = { s.context with currentType := t.context.currentType } := by
  have ht : (e.generate classes here s).2 = t := congrArg Prod.snd h
  rw [← ht]
  exact e.generate_context here s

theorem gives_of_ok {e : Expr} {w : World σ} {t : Session σ}
    (h : e.generate classes here ⟨c, w⟩ = (.ok f, t)) :
    e.Gives classes here c f t.context.currentType := by
  refine ⟨w, t.world, h.trans ?_⟩
  rw [← context_of_generate h]

/-- Over plain data, what an expression is rendered to in one world, it is rendered to in all. -/
theorem Gives.everywhere {e : Expr} (h : e.Gives classes here c f hint) (hctx : ctx.Plain)
    (hc : c.reset = ctx.reset) (hhere : here.Plain) (w : World σ) :
    ∃ w', e.generate classes here ⟨c, w⟩ = (.ok f, ⟨{ c with currentType := hint }, w'⟩) := by
  obtain ⟨u, u', hrun⟩ := h
  have hsteady : SteadyIn ctx (fun _ => True) (e.generate classes here) :=
    e.plain_generate (steadyIn_steps classes hctx) hhere
  obtain ⟨r, c', -, -, hall⟩ := hsteady c hc
  obtain ⟨v, hu⟩ := hall u
  rw [hrun] at hu
  cases hu
  exact hall w

/-- What a successful rendering of the links of a chain consists of: each link is rendered against
the value of the one before it, which is plain and the same in all worlds. -/
def LinksGive (classes : Registry σ) (ctx : Context σ) :
    List Expr → Value → Context σ → Fragment → Option TypeHint → Prop
  | [], _, _, _, _ => False
  | [last], here, c, f, hint => last.Gives classes here c f hint
  | link :: next :: links, here, c, f, hint =>
    ∃ g h v, link.Gives classes here c g h ∧ v.Plain ∧
      Steady (link.evaluate classes ctx here) (.ok v) ∧
      LinksGive classes ctx (next :: links) v (c.afterLink g h) f hint

theorem linksGive_cons_iff {link : Expr} {links : List Expr} (hne : links ≠ []) :
    LinksGive classes ctx (link :: links) here c f hint ↔
      ∃ g h v, link.Gives classes here c g h ∧ v.Plain ∧
        Steady (link.evaluate classes ctx here) (.ok v) ∧
        LinksGive classes ctx links v (c.afterLink g h) f hint := by
  cases links with
  | nil => exact absurd rfl hne
  | cons next links => exact Iff.rfl

theorem linksGive_of_ok (hctx : ctx.Plain) (whole : Expr) : ∀ (links : List Expr) {here : Value}
    {c : Context σ} {w : World σ} {f : Fragment} {t : Session σ}, links ≠ [] → here.Plain →
      c.reset = ctx.reset → generateLinks classes whole links here ⟨c, w⟩ = (.ok f, t) →
        LinksGive classes ctx links here c f t.context.currentType
  | [], _, _, _, _, _, hne, _, _, _ => absurd rfl hne
  | [last], _, _, _, _, _, _, _, _, h => gives_of_ok h
  | link :: next :: links, here, c, w, f, t, _, hhere, hc, h => by
    obtain ⟨_, u, hvalue, h⟩ := Action.bind_eq_ok.1 h
    obtain ⟨fragment, hlink, rfl⟩ := Generation.asValue_eq_ok.1 hvalue
    obtain ⟨value, v, hstep, h⟩ := Action.bind_eq_ok.1 h
    obtain ⟨_, _, hset, hlinks⟩ := Action.bind_eq_ok.1 h
    cases hset
    have hu : u.context = { c with currentType := u.context.currentType } :=
      context_of_generate hlink
    have hs : Generating ctx ⟨c, w⟩ := ⟨hctx, hc⟩
    obtain ⟨hsteady, hplain⟩ := (hs.after (link.generate_reset here) hlink).steady_of_stepping
      hhere hstep
    obtain ⟨world, -, rfl⟩ := Generation.stepping_eq_ok.1 hstep
    refine ⟨fragment, u.context.currentType, value, gives_of_ok hlink, hplain, hsteady, ?_⟩
    have hrest := linksGive_of_ok hctx whole (next :: links) (List.cons_ne_nil _ _) hplain
      ((hs.after (link.generate_reset here) hlink).moved _).context hlinks
    rw [hu] at hrest
    exact hrest
termination_by structural links => links

theorem LinksGive.nonempty_world : ∀ {links : List Expr} {here : Value} {c : Context σ},
    LinksGive classes ctx links here c f hint → Nonempty (World σ)
  | [], _, _, h => h.elim
  | [_], _, _, ⟨w, _⟩ => ⟨w⟩
  | _ :: _ :: _, _, _, ⟨_, _, _, ⟨w, _⟩, _⟩ => ⟨w⟩

theorem LinksGive.everywhere (hctx : ctx.Plain) (whole : Expr) : ∀ {links : List Expr}
    {here : Value} {c : Context σ} {f : Fragment} {hint : Option TypeHint},
      LinksGive classes ctx links here c f hint → here.Plain → c.reset = ctx.reset →
        ∀ w, ∃ w' place, generateLinks classes whole links here ⟨c, w⟩ =
          (.ok f, ⟨{ c with currentType := hint, place }, w'⟩)
  | [], _, _, _, _, h, _, _, _ => h.elim
  | [last], _, c, _, _, h, hhere, hc, w => by
    obtain ⟨w', hrun⟩ := Gives.everywhere h hctx hc hhere w
    exact ⟨w', c.place, hrun⟩
  | link :: next :: links, here, c, f, hint, h, hhere, hc, w => by
    obtain ⟨g, k, v, hlink, hv, hsteady, hlinks⟩ := h
    obtain ⟨u, hrun⟩ := hlink.everywhere hctx hc hhere w
    let hinted : Context σ := { c with currentType := k }
    have hvalue : (link.evaluate classes hinted here u).1 = .ok v := by
      have hreset : hinted.reset = ctx.reset := hc
      rw [link.evaluate_of_reset hreset]
      exact hsteady u
    have hafter : (c.afterLink g k).reset = ctx.reset := hc
    obtain ⟨w', place, hrest⟩ := LinksGive.everywhere hctx whole hlinks hv hafter
      (link.evaluate classes hinted here u).2
    refine ⟨w', place, ?_⟩
    have hrendered := Generation.asValue_eq_ok.2 ⟨g, hrun, rfl⟩
    have hstepped : Generation.stepping classes whole link here ⟨hinted, u⟩ =
        (.ok v, ⟨hinted, (link.evaluate classes hinted here u).2⟩) :=
      Generation.stepping_eq_ok.2 ⟨_, Prod.ext hvalue rfl, rfl⟩
    rw [generateLinks, Action.bind_of_ok hrendered, Action.bind_of_ok hstepped]
    exact hrest
termination_by structural links => links

/-- A chain is rendered as its links are. The place moves from link to link, but afterwards it is
where it was. -/
theorem gives_chain_iff (hctx : ctx.Plain) (hc : c.reset = ctx.reset) (hhere : here.Plain)
    {links : List Expr} (hne : links ≠ []) :
    (chain links).Gives classes here c f hint ↔ LinksGive classes ctx links here c f hint := by
  obtain ⟨link, links, rfl⟩ := List.exists_cons_of_ne_nil hne
  constructor
  · rintro ⟨w, w', hrun⟩
    obtain ⟨u, hlinks, hu⟩ := Generation.keepingPlace_eq_ok.1 hrun
    have hgive := linksGive_of_ok hctx _ (link :: links) hne hhere hc hlinks
    have hhint : u.context.currentType = hint :=
      (congrArg (fun t : Session σ => t.context.currentType) hu).symm
    rwa [hhint] at hgive
  · intro h
    obtain ⟨w⟩ := h.nonempty_world
    obtain ⟨w', place, hrun⟩ := h.everywhere hctx (chain (link :: links)) hhere hc w
    exact ⟨w, w', Generation.keepingPlace_eq_ok.2 ⟨_, hrun, rfl⟩⟩

/-- Links in two lists: those of the second are rendered against the value of the first, from the
place of its fragment. -/
theorem linksGive_append_iff (hctx : ctx.Plain) {ys : List Expr} (hys : ys ≠ []) :
    ∀ {xs : List Expr} {here : Value} {c : Context σ}, xs ≠ [] → here.Plain →
      (LinksGive classes ctx (xs ++ ys) here c f hint ↔
        ∃ g h v, LinksGive classes ctx xs here c g h ∧ v.Plain ∧
          Steady (evaluateLinks classes ctx xs here) (.ok v) ∧
          LinksGive classes ctx ys v (c.afterLink g h) f hint)
  | [], _, _, hxs, _ => absurd rfl hxs
  | [link], here, c, _, _ => by
    rw [List.singleton_append, linksGive_cons_iff hys, evaluateLinks_singleton]
    rfl
  | link :: next :: links, here, c, _, hhere => by
    have hne : next :: links ≠ [] := List.cons_ne_nil _ _
    rw [List.cons_append, linksGive_cons_iff (List.append_ne_nil_of_right_ne_nil _ hys)]
    constructor
    · rintro ⟨g, h, u, hlink, hu, hsteady, hlinks⟩
      obtain ⟨g', h', v, hrest, hv, hvalue, hlast⟩ :=
        (linksGive_append_iff hctx hys hne hu).1 hlinks
      exact ⟨g', h', v, ⟨g, h, u, hlink, hu, hsteady, hrest⟩, hv, hsteady.bind hvalue, hlast⟩
    · rintro ⟨g', h', v, ⟨g, h, u, hlink, hu, hsteady, hrest⟩, hv, hvalue, hlast⟩
      have hvalue' : Steady (evaluateLinks classes ctx (next :: links) u) (.ok v) :=
        hsteady.of_bind (settles_evaluateLinks hctx (next :: links) hu) hvalue
      exact ⟨g, h, u, hlink, hu, hsteady,
        (linksGive_append_iff hctx hys hne hu).2 ⟨g', h', v, hrest, hv, hvalue', hlast⟩⟩
termination_by structural xs => xs

theorem linksGive_nested_iff (hctx : ctx.Plain) (hc : c.reset = ctx.reset) (hhere : here.Plain)
    {ys : List Expr} (hys : ys ≠ []) (zs : List Expr) :
    LinksGive classes ctx ([chain ys] ++ zs) here c f hint ↔
      LinksGive classes ctx (ys ++ zs) here c f hint := by
  have hchain {g : Fragment} {h : Option TypeHint} :
      LinksGive classes ctx [chain ys] here c g h ↔ LinksGive classes ctx ys here c g h :=
    gives_chain_iff hctx hc hhere hys
  by_cases hzs : zs = []
  · simpa only [hzs, List.append_nil] using hchain
  · rw [linksGive_append_iff hctx hzs (List.cons_ne_nil _ _) hhere,
      linksGive_append_iff hctx hzs hys hhere, evaluateLinks_singleton, evaluate_chain]
    simp only [hchain]

/-- Over plain data, a chain within a chain leaves no mark on fragment and hint. -/
theorem gives_chain_nested_iff (hctx : ctx.Plain) (hc : c.reset = ctx.reset) (hhere : here.Plain)
    (xs : List Expr) {ys : List Expr} (hys : ys ≠ []) (zs : List Expr) :
    (chain (xs ++ [chain ys] ++ zs)).Gives classes here c f hint ↔
      (chain (xs ++ ys ++ zs)).Gives classes here c f hint := by
  have hnested : [chain ys] ++ zs ≠ [] := List.cons_ne_nil _ _
  have hflat : ys ++ zs ≠ [] := List.append_ne_nil_of_left_ne_nil hys zs
  simp only [List.append_assoc]
  rw [gives_chain_iff hctx hc hhere (List.append_ne_nil_of_right_ne_nil xs hnested),
    gives_chain_iff hctx hc hhere (List.append_ne_nil_of_right_ne_nil xs hflat)]
  by_cases hxs : xs = []
  · subst hxs
    exact linksGive_nested_iff hctx hc hhere hys zs
  · rw [linksGive_append_iff hctx hnested hxs hhere, linksGive_append_iff hctx hflat hxs hhere]
    refine exists_congr fun g => exists_congr fun h => exists_congr fun v => ?_
    refine and_congr_right fun _ => and_congr_right fun hv => and_congr_right fun _ => ?_
    have hafter : (c.afterLink g h).reset = ctx.reset := hc
    exact linksGive_nested_iff hctx hafter hv hys zs

/-- A generation over plain data leaves the context as it was but for the hint. -/
theorem exists_generate_iff {e : Expr} {s : Session σ} (hctx : s.context.Plain)
    (hhere : here.Plain) :
    (∃ w, e.generate classes here s = (.ok f, ⟨c, w⟩)) ↔
      c = { s.context with currentType := c.currentType } ∧
        e.Gives classes here s.context f c.currentType := by
  constructor
  · rintro ⟨w, h⟩
    exact ⟨context_of_generate h, gives_of_ok h⟩
  · rintro ⟨hcontext, hgives⟩
    obtain ⟨w, h⟩ := hgives.everywhere hctx rfl hhere s.world
    rw [← hcontext] at h
    exact ⟨w, h⟩

end Expr

/-- A chain that is a link of a chain, wherever it stands, may be replaced by its links: evaluation
and assignment are the same actions, also where they fail. Over plain data generation succeeds for
both or for neither, with the same fragment and the same context, hence the same hint,
afterwards. -/
theorem chain_nesting_immaterial (classes : Registry σ) (xs : List Expr) {ys : List Expr}
    (hys : ys ≠ []) (zs : List Expr) (here : Value) :
    let nested := Expr.chain (xs ++ [.chain ys] ++ zs)
    let flat := Expr.chain (xs ++ ys ++ zs)
    (∀ ctx : Context σ, nested.evaluate classes ctx here = flat.evaluate classes ctx here) ∧
    (∀ value, nested.assign classes here value = flat.assign classes here value) ∧
    ∀ s : Session σ, s.context.Plain → here.Plain → ∀ (f : Fragment) (c : Context σ),
      (∃ w, nested.generate classes here s = (.ok f, ⟨c, w⟩)) ↔
        ∃ w, flat.generate classes here s = (.ok f, ⟨c, w⟩) := by
  intro nested flat
  refine ⟨fun ctx => congrFun (Expr.evaluateLinks_nested xs ys zs) here,
    fun value => Expr.assign_chain_nested xs hys zs here value, fun s hctx hhere f c => ?_⟩
  rw [Expr.exists_generate_iff hctx hhere, Expr.exists_generate_iff hctx hhere]
  exact and_congr_right fun _ => Expr.gives_chain_nested_iff hctx rfl hhere xs hys zs

/-- The inner chain stands in the middle, and its last link is the source. -/
theorem chain_nesting_of_middle_chain :
    let s : Session Unit :=
      ⟨Context.new (.map (Dict.empty.insert "user" (.map (Dict.empty.insert "name" (.string "ada"))))),
        World.start ()⟩
    let classes : Registry Unit := fun _ => ClassTable.empty
    let name := Fragment.clone (.group (.property (.group (.property .targetPlace "user")) "name"))
    let length := Fragment.property (.group name) "length"
    let nested := Expr.chain ([.property "user"] ++ [.chain [.property "name", .source]] ++
      [.property "length"])
    let flat := Expr.chain ([.property "user"] ++ [.property "name", .source] ++
      [.property "length"])
    (nested.value classes s.context s.world).1 = .ok (.integer 3) ∧
      nested.evaluate classes s.context s.context.root =
        flat.evaluate classes s.context s.context.root ∧
      ∃ w, flat.generate classes s.context.root s =
        (.ok length, ⟨{ s.context with currentType := some .dynamic }, w⟩) := by
  intro s classes name length nested flat
  have hctx : s.context.Plain := ⟨rfl, nofun, nofun⟩
  obtain ⟨hvalue, -, hgenerate⟩ := chain_nesting_immaterial classes [.property "user"]
    (List.cons_ne_nil (.property "name") [.source]) [.property "length"] s.context.root
  exact ⟨rfl, hvalue s.context, (hgenerate s hctx rfl length _).1 ⟨_, rfl⟩⟩

end ObjectGraph
