import ObjectGraph.Proofs.PlainEvaluation
import ObjectGraph.Proofs.PlainGeneration

/-!
# Generating again in the same context

A generation that succeeds and one that fails leave the context as it was, but for the hint. So a
context that has served any number of generations serves the next one like a new context. Where
plain data is all around, even what happened to the world in the meantime makes no difference.
-/
namespace ObjectGraph

variable {σ α β : Type} {classes : Registry σ} {ctx : Context σ}

/-! ## One generation -/

/-- Two contexts that differ in nothing that generation keeps differ in the hint only. -/
theorem Context.eq_of_reset {ctx ctx' : Context σ} (hreset : ctx'.reset = ctx.reset)
    (hplace : ctx'.place = ctx.place) :
    ctx' = { ctx with currentType := ctx'.currentType } := by
  have hbindings : ctx'.toBindings = ctx.toBindings := by
    change ctx'.reset.toBindings = ctx.reset.toBindings
    rw [hreset]
  have hpolicy : ctx'.policy = ctx.policy := by
    change ctx'.reset.policy = ctx.reset.policy
    rw [hreset]
  have hnulls : ctx'.nulls = ctx.nulls := by
    change ctx'.reset.nulls = ctx.reset.nulls
    rw [hreset]
  rw [← hbindings, ← hpolicy, ← hnulls, ← hplace]

theorem Expr.generate_context (e : Expr) (target : Value) (s : Session σ) :
    (e.generate classes target s).2.context =
      { s.context with currentType := (e.generate classes target s).2.context.currentType } := by
  have hreset : Preserves Context.reset (e.generate classes target) := e.generate_reset target
  have hplace : Preserves Context.place (e.generate classes target) := e.generate_place target
  exact Context.eq_of_reset (hreset s) (hplace s)

/-! ## A context in use -/

/-- What may be done with a context between two generations, or happen to the world. -/
inductive Use (σ : Type)
  | generate (e : Expr) (target : Value)
  | generateFromRoot (e : Expr)
  | setCurrentType (hint : TypeHint)
  | reset
  | meanwhile (world : World σ)

namespace Session

def use (classes : Registry σ) (s : Session σ) : Use σ → Session σ
  | .generate e target => (e.generate classes target s).2
  | .generateFromRoot e => (e.generateFromRoot classes s).2
  | .setCurrentType hint => { s with context := s.context.setCurrentType hint }
  | .reset => { s with context := s.context.reset }
  | .meanwhile world => { s with world }

theorem use_reset (s : Session σ) (u : Use σ) :
    (s.use classes u).context.reset = s.context.reset := by
  cases u with
  | generate e target =>
    have hkeeps : Preserves Context.reset (e.generate classes target) := e.generate_reset target
    exact hkeeps s
  | generateFromRoot e =>
    have hkeeps : Preserves Context.reset (e.generate classes s.context.root) :=
      e.generate_reset s.context.root
    exact hkeeps { s with context := s.context.reset }
  | setCurrentType hint => rfl
  | reset => rfl
  | meanwhile world => rfl

theorem uses_reset (uses : List (Use σ)) (s : Session σ) :
    (uses.foldl (use classes) s).context.reset = s.context.reset := by
  induction uses generalizing s with
  | nil => rfl
  | cons u uses ih => rw [List.foldl_cons, ih, use_reset]

end Session

/-- A new context of the same root, variables, policy and null handlers. -/
def Context.afresh (ctx : Context σ) : Context σ :=
  { (Context.new ctx.root : Context σ) with
    vars := ctx.vars, policy := ctx.policy, nulls := ctx.nulls }

/-- Generation from the root starts from what a reset leaves. -/
theorem Expr.generateFromRoot_of_reset {ctx ctx' : Context σ} (h : ctx'.reset = ctx.reset)
    (e : Expr) (w : World σ) :
    e.generateFromRoot classes ⟨ctx', w⟩ = e.generateFromRoot classes ⟨ctx, w⟩ := by
  change e.generate classes ctx'.reset.root ⟨ctx'.reset, w⟩ =
    e.generate classes ctx.reset.root ⟨ctx.reset, w⟩
  rw [h]

/-! ## Plain data and the world -/

/-- In a context that is this one, but for what generation uses of it, the action comes to one
result and leaves one such context, whatever the world is. A result has the property. -/
def SteadyIn (ctx : Context σ) (P : α → Prop) (g : Generation σ α) : Prop :=
  ∀ c : Context σ, c.reset = ctx.reset → ∃ r c', c'.reset = ctx.reset ∧ (∀ x, r = .ok x → P x) ∧
    ∀ w, ∃ w', g ⟨c, w⟩ = (r, ⟨c', w'⟩)

namespace SteadyIn

variable {P : α → Prop} {Q : β → Prop} {g : Generation σ α} {f : α → Generation σ β}

theorem pure {x : α} (h : P x) : SteadyIn ctx P (Pure.pure x) :=
  fun c hc => ⟨.ok x, c, hc, by rintro _ ⟨⟩; exact h, fun w => ⟨w, rfl⟩⟩

theorem bind (hg : SteadyIn ctx P g) (hf : ∀ x, P x → SteadyIn ctx Q (f x)) :
    SteadyIn ctx Q (g >>= f) := by
  intro c hc
  obtain ⟨r, c', hc', hP, hrun⟩ := hg c hc
  cases r with
  | error e =>
    refine ⟨.error e, c', hc', nofun, fun w => ?_⟩
    obtain ⟨w', hw⟩ := hrun w
    exact ⟨w', Action.bind_of_error hw⟩
  | ok x =>
    obtain ⟨r, c'', hc'', hQ, hnext⟩ := hf x (hP x rfl) c' hc'
    refine ⟨r, c'', hc'', hQ, fun w => ?_⟩
    obtain ⟨w', hw⟩ := hrun w
    rw [Action.bind_of_ok hw]
    exact hnext w'

theorem change {f : Context σ → Context σ} (hf : ∀ c, (f c).reset = c.reset) :
    SteadyIn ctx (fun _ => True) (Session.change f) :=
  fun c hc => ⟨.ok (), f c, (hf c).trans hc, fun _ _ => trivial, fun w => ⟨w, rfl⟩⟩

theorem current {f : Context σ → Generation σ α}
    (hf : ∀ c : Context σ, c.reset = ctx.reset → SteadyIn ctx P (f c)) :
    SteadyIn ctx P (Session.current >>= f) := fun c hc => hf c hc c hc

theorem keepingPlace (hg : SteadyIn ctx P g) : SteadyIn ctx P (Generation.keepingPlace g) := by
  intro c hc
  obtain ⟨r, c', hc', hP, hrun⟩ := hg c hc
  refine ⟨r, { c' with place := c.place }, hc', hP, fun w => ?_⟩
  obtain ⟨w', hw⟩ := hrun w
  exact ⟨w', by rw [Generation.keepingPlace, hw]⟩

theorem mapError (hg : SteadyIn ctx P g) (f : GenerationError → GenerationError) :
    SteadyIn ctx P (g.mapError f) := by
  intro c hc
  obtain ⟨r, c', hc', hP, hrun⟩ := hg c hc
  refine ⟨r.mapError f, c', hc', fun x hx => ?_, fun w => ?_⟩
  · cases r with
    | error e => cases hx
    | ok y => exact hP x hx
  · obtain ⟨w', hw⟩ := hrun w
    exact ⟨w', by rw [Action.mapError, hw]⟩

end SteadyIn

theorem Generation.steadyIn_stepping (hctx : ctx.Plain) (whole link : Expr) {here : Value}
    (h : here.Plain) : SteadyIn ctx Value.Plain (stepping classes whole link here) := by
  intro c hc
  have hsettles : Settles Value.Plain (link.evaluate classes ctx here) :=
    link.settles_evaluate hctx h
  obtain ⟨o, hsteady, -, hplain⟩ := hsettles
  refine ⟨o.mapError (.failed whole), c, hc, fun x hx => ?_, fun w => ?_⟩
  · cases o with
    | error e => cases hx
    | ok y => exact hplain x (congrArg _ (Except.ok.inj hx))
  · have hlink : link.evaluate classes c here = link.evaluate classes ctx here :=
      link.evaluate_of_reset hc here
    refine ⟨(link.evaluate classes ctx here w).2, ?_⟩
    simp only [stepping, Action.mapError, Session.reading, hlink, hsteady w]

/-- Plain data is the same in every world, and so is what is generated for it. -/
theorem steadyIn_steps (classes : Registry σ) (hctx : ctx.Plain) :
    PlainSteps classes ctx fun {_} P g => SteadyIn ctx P g where
  root := hctx.root
  pure := .pure
  bind := .bind
  current hf _ := .current hf
  setHint _ := .change fun _ => rfl
  setPlace _ := .change fun _ => rfl
  keepingPlace := .keepingPlace
  within e _ hg := hg.mapError (.within e)
  stepping := Generation.steadyIn_stepping hctx

/-- After a generation, however it ended, the context differs in the hint at most. So after any
uses, generation from the root does in every world just what it does there in a new context; over
plain data the fragment or the error and the context are even those that a new context gives in any
other world. The policy and the null handlers see the bindings only, and so they cannot tell a used
context from a new one by the hint. -/
theorem generation_leaves_no_trace (classes : Registry σ) (s : Session σ) :
    (∀ (e : Expr) (target : Value), (e.generate classes target s).2.context =
      { s.context with currentType := (e.generate classes target s).2.context.currentType }) ∧
    ∀ (uses : List (Use σ)) (e : Expr),
      let used := (uses.foldl (Session.use classes) s).context
      (∀ w, e.generateFromRoot classes ⟨used, w⟩ =
        e.generateFromRoot classes ⟨s.context.afresh, w⟩) ∧
      (s.context.Plain → ∀ w w',
        (e.generateFromRoot classes ⟨used, w⟩).1 =
            (e.generateFromRoot classes ⟨s.context.afresh, w'⟩).1 ∧
          (e.generateFromRoot classes ⟨used, w⟩).2.context =
            (e.generateFromRoot classes ⟨s.context.afresh, w'⟩).2.context) := by
  refine ⟨fun e target => e.generate_context target s, fun uses e => ?_⟩
  intro used
  have hused : used.reset = s.context.afresh.reset := Session.uses_reset uses s
  have hsame (w : World σ) : e.generateFromRoot classes ⟨used, w⟩ =
      e.generateFromRoot classes ⟨s.context.afresh, w⟩ := e.generateFromRoot_of_reset hused w
  refine ⟨hsame, fun hctx w w' => ?_⟩
  have hsteady : SteadyIn s.context (fun _ => True) (e.generateFromRoot classes) :=
    e.plain_generateFromRoot (steadyIn_steps classes hctx) (.change fun _ => rfl)
  obtain ⟨r, c, -, -, hrun⟩ := hsteady s.context.afresh rfl
  obtain ⟨u, hw⟩ := hrun w
  obtain ⟨u', hw'⟩ := hrun w'
  rw [hsame, hw, hw']
  exact ⟨rfl, rfl⟩

/-- A chain that fails at its second link moves the place in vain. -/
theorem no_trace_of_failed_chain :
    let s : Session Unit := ⟨Context.new (.map Dict.empty), World.start ()⟩
    let classes : Registry Unit := fun _ => ClassTable.empty
    let failing := Expr.chain [.property "user", .property "name", .source]
    let uses := [Use.generate failing s.context.root, .setCurrentType .boolean]
    let used := (uses.foldl (Session.use classes) s).context
    (failing.generate classes s.context.root s).1 =
        .error (.failed failing (.nullSource "getProperty" "name")) ∧
      used.currentType = some .boolean ∧
      ∀ w w', (Expr.source.generateFromRoot classes ⟨used, w⟩).1 =
        (Expr.source.generateFromRoot classes ⟨s.context.afresh, w'⟩).1 := by
  intro s classes failing uses used
  have hctx : s.context.Plain := ⟨rfl, nofun, nofun⟩
  obtain ⟨-, hreuse⟩ := generation_leaves_no_trace classes s
  refine ⟨rfl, rfl, fun w w' => ?_⟩
  exact ((hreuse uses .source).2 hctx w w').1

end ObjectGraph
