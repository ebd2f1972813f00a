import ObjectGraph.Proofs.GenerationFrame
import ObjectGraph.Proofs.PlainEvaluation

/-!
# Which expressions can be rendered

Generation evaluates the prefix of every chain that it meets, also where a connective keeps the
interpreter from getting there. Over plain data these evaluations are all that can fail. So an
expression that evaluates can be rendered exactly when each operand that the connectives left out
can be rendered by itself.
-/
namespace ObjectGraph

namespace Action

variable {S ε δ α β : Type} {a : Action S ε α} {f : α → Action S ε β} {s : S}

/-- The action ends with a result. -/
def Succeeds (a : Action S ε α) (s : S) : Prop := ∃ x t, a s = (.ok x, t)

theorem succeeds_pure (x : α) : (pure x : Action S ε α).Succeeds s := ⟨x, s, rfl⟩

theorem succeeds_bind_iff :
    (a >>= f).Succeeds s ↔ ∃ x t, a s = (.ok x, t) ∧ (f x).Succeeds t := by
  constructor
  · rintro ⟨y, u, h⟩
    obtain ⟨x, t, ha, hf⟩ := bind_eq_ok.1 h
    exact ⟨x, t, ha, y, u, hf⟩
  · rintro ⟨x, t, ha, y, u, hf⟩
    exact ⟨y, u, bind_eq_ok.2 ⟨x, t, ha, hf⟩⟩

/-- Two actions in sequence, where the result of the first does not matter to the second. -/
theorem succeeds_bind {P Q : Prop} (ha : a.Succeeds s ↔ P)
    (hf : ∀ {x t}, a s = (.ok x, t) → ((f x).Succeeds t ↔ Q)) :
    (a >>= f).Succeeds s ↔ P ∧ Q := by
  rw [succeeds_bind_iff]
  constructor
  · rintro ⟨x, t, hrun, hnext⟩
    exact ⟨ha.1 ⟨x, t, hrun⟩, (hf hrun).1 hnext⟩
  · rintro ⟨hP, hQ⟩
    obtain ⟨x, t, hrun⟩ := ha.2 hP
    exact ⟨x, t, hrun, (hf hrun).2 hQ⟩

theorem succeeds_bind_left (hf : ∀ x t, (f x).Succeeds t) :
    (a >>= f).Succeeds s ↔ a.Succeeds s := by
  rw [succeeds_bind_iff]
  constructor
  · rintro ⟨x, t, hrun, -⟩
    exact ⟨x, t, hrun⟩
  · rintro ⟨x, t, hrun⟩
    exact ⟨x, t, hrun, hf x t⟩

theorem succeeds_mapError (f : ε → δ) : (a.mapError f).Succeeds s ↔ a.Succeeds s := by
  unfold Succeeds
  simp only [mapError_eq_ok]

end Action

open ObjectGraph.Action

variable {σ α : Type} {classes : Registry σ} {ctx : Context σ} {s : Session σ}

namespace Generation

theorem succeeds_keepingPlace {g : Generation σ α} :
    (keepingPlace g).Succeeds s ↔ g.Succeeds s := by
  constructor
  · rintro ⟨x, t, h⟩
    obtain ⟨u, hg, -⟩ := keepingPlace_eq_ok.1 h
    exact ⟨x, u, hg⟩
  · rintro ⟨x, u, hg⟩
    exact ⟨x, _, keepingPlace_eq_ok.2 ⟨u, hg, rfl⟩⟩

theorem succeeds_asValue {g : Generation σ Fragment} :
    (asValue g).Succeeds s ↔ g.Succeeds s :=
  succeeds_bind_left fun fragment t => ⟨fragment.asValue t.context.currentType, t, rfl⟩

theorem succeeds_fromRoot {g : Value → Generation σ Fragment} :
    (fromRoot g).Succeeds s ↔
      (g s.context.root).Succeeds { s with context := { s.context with place := .rootPlace } } := by
  have hkept : (fromRoot g).Succeeds s ↔
      (setPlace .rootPlace >>= fun _ => asValue (g s.context.root)).Succeeds s :=
    succeeds_keepingPlace
  rw [hkept]
  exact succeeds_asValue

theorem succeeds_navigating (fragment : Fragment → Fragment) :
    (navigating fragment : Generation σ Fragment).Succeeds s := ⟨_, _, rfl⟩

theorem succeeds_hinted (hint : TypeHint) (fragment : Fragment) :
    (setHint hint >>= fun _ => pure fragment : Generation σ Fragment).Succeeds s := ⟨_, _, rfl⟩

end Generation

/-- A session in the middle of generating for a context of plain data. -/
structure Generating (ctx : Context σ) (s : Session σ) : Prop where
  data : ctx.Plain
  context : s.context.reset = ctx.reset

namespace Generating

theorem root_eq (h : Generating ctx s) : s.context.root = ctx.root :=
  Context.root_of_reset h.context

theorem after (h : Generating ctx s) {g : Generation σ α} (hg : Preserves Context.reset g)
    {r : Except GenerationError α} {t : Session σ} (hrun : g s = (r, t)) : Generating ctx t := by
  have hreset := hg s
  rw [hrun] at hreset
  exact ⟨h.data, hreset.trans h.context⟩

theorem evaluate_eq (h : Generating ctx s) (e : Expr) (here : Value) :
    e.evaluate classes s.context here = e.evaluate classes ctx here :=
  e.evaluate_of_reset h.context here

/-- A link that was stepped through in one world comes to the same value in all of them. -/
theorem steady_of_stepping (h : Generating ctx s) {whole link : Expr} {here value : Value}
    (hhere : here.Plain) {t : Session σ}
    (hrun : Generation.stepping classes whole link here s = (.ok value, t)) :
    Steady (link.evaluate classes ctx here) (.ok value) ∧ value.Plain := by
  obtain ⟨world, hvalue, -⟩ := Generation.stepping_eq_ok.1 hrun
  rw [h.evaluate_eq] at hvalue
  exact (link.settles_evaluate h.data hhere).steady hvalue

/-- A chain goes on from a link exactly when the link has a value. -/
theorem succeeds_stepping_bind (h : Generating ctx s) {whole link : Expr} {here : Value}
    (hhere : here.Plain) {f : Value → Generation σ α} {Q : Value → Prop}
    (hf : ∀ {v : Value} {t : Session σ}, v.Plain → Generating ctx t → ((f v).Succeeds t ↔ Q v)) :
    (Generation.stepping classes whole link here >>= f).Succeeds s ↔
      ∃ v, Steady (link.evaluate classes ctx here) (.ok v) ∧ Q v := by
  have hkeeps : Preserves Context.reset (Generation.stepping classes whole link here) :=
    (Generation.preserves_stepping whole link here).of_id
  rw [succeeds_bind_iff]
  constructor
  · rintro ⟨v, t, hstep, hnext⟩
    obtain ⟨hsteady, hv⟩ := h.steady_of_stepping hhere hstep
    exact ⟨v, hsteady, (hf hv (h.after hkeeps hstep)).1 hnext⟩
  · rintro ⟨v, hsteady, hQ⟩
    have hvalue := hsteady s.world
    rw [← h.evaluate_eq] at hvalue
    obtain ⟨t, hstep⟩ : ∃ t, Generation.stepping classes whole link here s = (.ok v, t) :=
      ⟨_, Generation.stepping_eq_ok.2 ⟨_, Prod.ext hvalue rfl, rfl⟩⟩
    obtain ⟨-, hv⟩ := h.steady_of_stepping hhere hstep
    exact ⟨v, t, hstep, (hf hv (h.after hkeeps hstep)).2 hQ⟩

theorem moved (h : Generating ctx s) (place : Fragment) :
    Generating ctx ⟨{ s.context with place }, s.world⟩ := ⟨h.data, h.context⟩

end Generating

namespace Expr

open Generation

section

variable (classes : Registry σ) (ctx : Context σ)

mutual
/-- Every prefix of a chain that the rendering of the expression evaluates comes to a value. -/
def Navigable : Expr → Value → Prop
  | index key, _ => key.Navigable ctx.root
  | method _ args, _ => AllNavigable args ctx.root
  | chain links, here => NavigableLinks links here
  | not operand, here => operand.Navigable here
  | logical _ operands, here => AllNavigable operands here
  | compare _ left right, here => left.Navigable here ∧ right.Navigable here
  | _, _ => True
termination_by structural e => e

def AllNavigable : List Expr → Value → Prop
  | [], _ => True
  | e :: es, here => e.Navigable here ∧ AllNavigable es here
termination_by structural es => es

def NavigableLinks : List Expr → Value → Prop
  | [], _ => True
  | [last], here => last.Navigable here
  | link :: next :: links, here => link.Navigable here ∧
      ∃ v, Steady (link.evaluate classes ctx here) (.ok v) ∧ NavigableLinks (next :: links) v
termination_by structural links => links
end

mutual
/-- The evaluation of the expression on a source stops a connective short of the operand, which
would have been evaluated on the source `there`. -/
def LeavesOut : Expr → Value → Expr → Value → Prop
  | index key, _, operand, there => key.LeavesOut ctx.root operand there
  | method _ args, _, operand, there => ArgsLeaveOut args operand there
  | chain links, here, operand, there => LinksLeaveOut links here operand there
  | not e, here, operand, there => e.LeavesOut here operand there
  | logical op operands, here, operand, there => OperandsLeaveOut op operands here operand there
  | compare _ left right, here, operand, there =>
    left.LeavesOut here operand there ∨ right.LeavesOut here operand there
  | _, _, _, _ => False
termination_by structural e => e

def ArgsLeaveOut : List Expr → Expr → Value → Prop
  | [], _, _ => False
  | arg :: args, operand, there =>
    arg.LeavesOut ctx.root operand there ∨ ArgsLeaveOut args operand there
termination_by structural args => args

def LinksLeaveOut : List Expr → Value → Expr → Value → Prop
  | [], _, _, _ => False
  | link :: links, here, operand, there => link.LeavesOut here operand there ∨
      ∃ v, Steady (link.evaluate classes ctx here) (.ok v) ∧ LinksLeaveOut links v operand there
termination_by structural links => links

/-- Those after the operand that decides are left out as a whole. -/
def OperandsLeaveOut (op : Connective) : List Expr → Value → Expr → Value → Prop
  | [], _, _, _ => False
  | e :: es, here, operand, there => e.LeavesOut here operand there ∨
      ∃ v, Steady (e.evaluate classes ctx here) (.ok v) ∧
        if op.stopsAt v.truthy then operand ∈ es ∧ there = here
        else OperandsLeaveOut op es here operand there
termination_by structural es => es
end

end

mutual
/-- What is rendered does not have to evaluate, except for the prefixes of chains. -/
theorem succeeds_generate : ∀ (e : Expr) {here : Value} {s : Session σ}, Generating ctx s →
    here.Plain → ((e.generate classes here).Succeeds s ↔ e.Navigable classes ctx here)
  | const _, _, _, _, _ => ⟨fun _ => trivial, fun _ => ⟨_, _, rfl⟩⟩
  | root, _, _, _, _ => ⟨fun _ => trivial, fun _ => ⟨_, _, rfl⟩⟩
  | source, _, _, _, _ => ⟨fun _ => trivial, fun _ => ⟨_, _, rfl⟩⟩
  | var _, _, _, _, _ => ⟨fun _ => trivial, fun _ => ⟨_, _, rfl⟩⟩
  | property name, here, s, _, hhere => by
    rw [generate, checkProperty_of_plain hhere]
    exact ⟨fun _ => trivial, fun _ => succeeds_navigating _⟩
  | index key, here, s, hs, _ => by
    rw [generate, succeeds_bind_left fun _ _ => succeeds_navigating _, succeeds_fromRoot,
      hs.root_eq]
    exact succeeds_generate key (hs.moved .rootPlace) hs.data.root
  | subscript _, _, _, _, _ => ⟨fun _ => trivial, fun _ => succeeds_navigating _⟩
  | method name args, here, s, hs, hhere => by
    rw [generate, checkMethod_of_plain hhere, pure_bind,
      succeeds_bind_left fun _ _ => succeeds_navigating _]
    exact succeeds_generateArgs args hs
  | chain [], _, _, _, _ => ⟨fun _ => trivial, fun _ => ⟨_, _, rfl⟩⟩
  | chain (link :: links), here, s, hs, hhere => by
    rw [generate, succeeds_keepingPlace]
    exact succeeds_generateLinks _ (link :: links) hs hhere
  | not operand, here, s, hs, hhere => by
    rw [generate, succeeds_bind_left fun _ _ => succeeds_hinted _ _, succeeds_mapError]
    exact succeeds_generate operand hs hhere
  | logical op operands, here, s, hs, hhere => by
    rw [generate, succeeds_bind_left fun _ _ => succeeds_hinted _ _]
    exact succeeds_generateOperands operands hs hhere
  | compare op left right, here, s, hs, hhere => by
    refine succeeds_bind (succeeds_asValue.trans (succeeds_generate left hs hhere)) ?_
    intro _ t hleft
    have ht : Generating ctx t := hs.after (left.asValue_reset here) hleft
    rw [succeeds_bind_left fun _ _ => succeeds_hinted _ _, succeeds_asValue]
    exact succeeds_generate right ht hhere
termination_by structural e => e

theorem succeeds_generateArgs : ∀ (args : List Expr) {s : Session σ}, Generating ctx s →
    ((generateArgs classes args).Succeeds s ↔ AllNavigable classes ctx args ctx.root)
  | [], _, _ => ⟨fun _ => trivial, fun _ => succeeds_pure []⟩
  | arg :: args, s, hs => by
    refine succeeds_bind ?_ ?_
    · rw [succeeds_fromRoot, hs.root_eq]
      exact succeeds_generate arg (hs.moved .rootPlace) hs.data.root
    · intro _ t harg
      have ht : Generating ctx t := hs.after arg.fromRoot_reset harg
      rw [succeeds_bind_left fun _ _ => succeeds_pure _]
      exact succeeds_generateArgs args ht
termination_by structural args => args

theorem succeeds_generateOperands : ∀ (operands : List Expr) {here : Value} {s : Session σ},
    Generating ctx s → here.Plain →
      ((generateOperands classes operands here).Succeeds s ↔
        AllNavigable classes ctx operands here)
  | [], _, _, _, _ => ⟨fun _ => trivial, fun _ => succeeds_pure []⟩
  | operand :: operands, here, s, hs, hhere => by
    refine succeeds_bind (succeeds_asValue.trans (succeeds_generate operand hs hhere)) ?_
    intro _ t hoperand
    have ht : Generating ctx t := hs.after (operand.asValue_reset here) hoperand
    rw [succeeds_bind_left fun _ _ => succeeds_pure _]
    exact succeeds_generateOperands operands ht hhere
termination_by structural operands => operands

theorem succeeds_generateLinks (whole : Expr) : ∀ (links : List Expr) {here : Value}
    {s : Session σ}, Generating ctx s → here.Plain →
      ((generateLinks classes whole links here).Succeeds s ↔
        NavigableLinks classes ctx links here)
  | [], _, _, _, _ => ⟨fun _ => trivial, fun _ => succeeds_pure _⟩
  | [last], here, s, hs, hhere => succeeds_generate last hs hhere
  | link :: next :: links, here, s, hs, hhere => by
    refine succeeds_bind (succeeds_asValue.trans (succeeds_generate link hs hhere)) ?_
    intro fragment t hlink
    have ht : Generating ctx t := hs.after (link.asValue_reset here) hlink
    exact ht.succeeds_stepping_bind hhere fun hv hu =>
      succeeds_generateLinks whole (next :: links) (hu.moved (.group fragment)) hv
termination_by structural links => links
end

theorem allNavigable_iff {es : List Expr} {here : Value} :
    AllNavigable classes ctx es here ↔ ∀ e ∈ es, e.Navigable classes ctx here := by
  induction es with
  | nil => simp [AllNavigable]
  | cons e es ih => simp [AllNavigable, ih]

mutual
/-- The interpreter went through every prefix itself, except within the operands left out. -/
theorem navigable_iff (hctx : ctx.Plain) : ∀ (e : Expr) {here : Value} {w w' : World σ}
    {v : Value}, here.Plain → e.evaluate classes ctx here w = (.ok v, w') →
      (e.Navigable classes ctx here ↔ ∀ operand there,
        e.LeavesOut classes ctx here operand there → operand.Navigable classes ctx there)
  | const _, _, _, _, _, _, _ => ⟨fun _ _ _ => False.elim, fun _ => trivial⟩
  | root, _, _, _, _, _, _ => ⟨fun _ _ _ => False.elim, fun _ => trivial⟩
  | source, _, _, _, _, _, _ => ⟨fun _ _ _ => False.elim, fun _ => trivial⟩
  | var _, _, _, _, _, _, _ => ⟨fun _ _ _ => False.elim, fun _ => trivial⟩
  | property _, _, _, _, _, _, _ => ⟨fun _ _ _ => False.elim, fun _ => trivial⟩
  | subscript _, _, _, _, _, _, _ => ⟨fun _ _ _ => False.elim, fun _ => trivial⟩
  | index key, _, _, _, _, _, h => by
    obtain ⟨_, _, hkey, -⟩ := Action.bind_eq_ok.1 h
    exact navigable_iff hctx key hctx.root hkey
  | method _ args, _, _, _, _, _, h => by
    obtain ⟨_, _, hargs, -⟩ := Action.bind_eq_ok.1 h
    exact navigable_args_iff hctx args hargs
  | chain links, _, _, _, _, hhere, h => navigable_links_iff hctx links hhere h
  | not operand, _, _, _, _, hhere, h => by
    obtain ⟨_, _, hoperand, -⟩ := Action.bind_eq_ok.1 h
    exact navigable_iff hctx operand hhere hoperand
  | logical op operands, _, _, _, _, hhere, h => navigable_operands_iff hctx op operands hhere h
  | compare _ left right, _, _, _, _, hhere, h => by
    obtain ⟨_, _, hleft, h⟩ := Action.bind_eq_ok.1 h
    obtain ⟨_, _, hright, -⟩ := Action.bind_eq_ok.1 h
    rw [Navigable, navigable_iff hctx left hhere hleft, navigable_iff hctx right hhere hright]
    simp only [LeavesOut, or_imp, forall_and]
termination_by structural e => e

theorem navigable_args_iff (hctx : ctx.Plain) : ∀ (args : List Expr) {w w' : World σ}
    {vs : List Value}, evaluateArgs classes ctx args w = (.ok vs, w') →
      (AllNavigable classes ctx args ctx.root ↔ ∀ operand there,
        ArgsLeaveOut classes ctx args operand there → operand.Navigable classes ctx there)
  | [], _, _, _, _ => ⟨fun _ _ _ => False.elim, fun _ => trivial⟩
  | arg :: args, _, _, _, h => by
    obtain ⟨_, _, harg, h⟩ := Action.bind_eq_ok.1 h
    obtain ⟨_, _, hargs, -⟩ := Action.bind_eq_ok.1 h
    rw [AllNavigable, navigable_iff hctx arg hctx.root harg, navigable_args_iff hctx args hargs]
    simp only [ArgsLeaveOut, or_imp, forall_and]
termination_by structural args => args

theorem navigable_links_iff (hctx : ctx.Plain) : ∀ (links : List Expr) {here : Value}
    {w w' : World σ} {v : Value}, here.Plain →
      evaluateLinks classes ctx links here w = (.ok v, w') →
      (NavigableLinks classes ctx links here ↔ ∀ operand there,
        LinksLeaveOut classes ctx links here operand there → operand.Navigable classes ctx there)
  | [], _, _, _, _, _, _ => ⟨fun _ _ _ => False.elim, fun _ => trivial⟩
  | [last], here, _, _, _, hhere, h => by
    obtain ⟨_, _, hlast, -⟩ := Action.bind_eq_ok.1 h
    -- What comes after the last link is never navigated from, whatever its value.
    rw [NavigableLinks, navigable_iff hctx last hhere hlast]
    simp only [LinksLeaveOut, and_false, exists_false, or_false]
  | link :: next :: links, here, _, _, _, hhere, h => by
    obtain ⟨v, u, hlink, h⟩ := Action.bind_eq_ok.1 h
    have hsettles : Settles Value.Plain (link.evaluate classes ctx here) :=
      link.settles_evaluate hctx hhere
    have hv : v.Plain := (hsettles.steady hlink).2
    rw [NavigableLinks, hsettles.exists_steady_iff hlink, navigable_iff hctx link hhere hlink,
      navigable_links_iff hctx (next :: links) hv h]
    simp only [LinksLeaveOut, hsettles.exists_steady_iff hlink, or_imp, forall_and]
termination_by structural links => links

theorem navigable_operands_iff (hctx : ctx.Plain) (op : Connective) : ∀ (operands : List Expr)
    {last here : Value} {w w' : World σ} {v : Value}, here.Plain →
      evaluateOperands classes ctx op operands last here w = (.ok v, w') →
      (AllNavigable classes ctx operands here ↔ ∀ operand there,
        OperandsLeaveOut classes ctx op operands here operand there →
          operand.Navigable classes ctx there)
  | [], _, _, _, _, _, _, _ => ⟨fun _ _ _ => False.elim, fun _ => trivial⟩
  | e :: es, _, here, _, _, _, hhere, h => by
    obtain ⟨v, u, he, h⟩ := Action.bind_eq_ok.1 h
    have hsettles : Settles Value.Plain (e.evaluate classes ctx here) :=
      e.settles_evaluate hctx hhere
    rw [AllNavigable, navigable_iff hctx e hhere he]
    simp only [OperandsLeaveOut, hsettles.exists_steady_iff he, or_imp, forall_and]
    by_cases hstop : op.stopsAt v.truthy = true
    · -- The others are left out as a whole.
      rw [allNavigable_iff]
      simp only [if_pos hstop]
      refine and_congr_right fun _ => ⟨?_, fun hall operand hmem => hall operand here ⟨hmem, rfl⟩⟩
      rintro hall operand _ ⟨hmem, rfl⟩
      exact hall operand hmem
    · rw [if_neg hstop] at h
      rw [navigable_operands_iff hctx op es hhere h]
      simp only [if_neg hstop]
termination_by structural operands => operands
end

mutual
/-- An operand that is left out would have been evaluated on plain data, too. -/
theorem plain_of_leavesOut (hctx : ctx.Plain) (w : World σ) : ∀ (e : Expr) {here : Value}
    {operand : Expr} {there : Value}, here.Plain →
      e.LeavesOut classes ctx here operand there → there.Plain
  | index key, _, _, _, _, h => plain_of_leavesOut hctx w key hctx.root h
  | method _ args, _, _, _, _, h => plain_of_argsLeaveOut hctx w args h
  | chain links, _, _, _, hhere, h => plain_of_linksLeaveOut hctx w links hhere h
  | not operand, _, _, _, hhere, h => plain_of_leavesOut hctx w operand hhere h
  | logical op operands, _, _, _, hhere, h => plain_of_operandsLeaveOut hctx w op operands hhere h
  | compare _ left right, _, _, _, hhere, h =>
    h.elim (plain_of_leavesOut hctx w left hhere) (plain_of_leavesOut hctx w right hhere)
termination_by structural e => e

theorem plain_of_argsLeaveOut (hctx : ctx.Plain) (w : World σ) : ∀ (args : List Expr)
    {operand : Expr} {there : Value}, ArgsLeaveOut classes ctx args operand there → there.Plain
  | arg :: args, _, _, h =>
    h.elim (plain_of_leavesOut hctx w arg hctx.root) (plain_of_argsLeaveOut hctx w args)
termination_by structural args => args

theorem plain_of_linksLeaveOut (hctx : ctx.Plain) (w : World σ) : ∀ (links : List Expr)
    {here : Value} {operand : Expr} {there : Value}, here.Plain →
      LinksLeaveOut classes ctx links here operand there → there.Plain
  | link :: links, here, _, _, hhere, h => by
    obtain h | ⟨v, hsteady, h⟩ := h
    · exact plain_of_leavesOut hctx w link hhere h
    · have hrun : link.evaluate classes ctx here w =
          (.ok v, (link.evaluate classes ctx here w).2) := Prod.ext (hsteady w) rfl
      have hv : v.Plain := ((link.settles_evaluate hctx hhere).steady hrun).2
      exact plain_of_linksLeaveOut hctx w links hv h
termination_by structural links => links

theorem plain_of_operandsLeaveOut (hctx : ctx.Plain) (w : World σ) (op : Connective) :
    ∀ (operands : List Expr) {here : Value} {operand : Expr} {there : Value}, here.Plain →
      OperandsLeaveOut classes ctx op operands here operand there → there.Plain
  | e :: es, here, _, _, hhere, h => by
    obtain h | ⟨v, _, h⟩ := h
    · exact plain_of_leavesOut hctx w e hhere h
    · split at h
      · obtain ⟨-, rfl⟩ := h
        exact hhere
      · exact plain_of_operandsLeaveOut hctx w op es hhere h
termination_by structural operands => operands
end

end Expr

/-- Over plain data, an expression that evaluates can be rendered if and only if every operand that
the evaluation left out, because a connective was decided before it, can be rendered by itself on
the source on which it would have been evaluated. -/
theorem renderable_iff_of_evaluates {e : Expr} {here value : Value} (hctx : s.context.Plain)
    (hhere : here.Plain) (h : (e.evaluate classes s.context here s.world).1 = .ok value) :
    (e.generate classes here).Succeeds s ↔ ∀ operand there,
      e.LeavesOut classes s.context here operand there →
        (operand.generate classes there).Succeeds s := by
  have hs : Generating s.context s := ⟨hctx, rfl⟩
  rw [e.succeeds_generate hs hhere, e.navigable_iff hctx hhere (Prod.ext h rfl)]
  refine forall₃_congr fun operand there hleft => ?_
  have hthere : there.Plain := e.plain_of_leavesOut hctx s.world hhere hleft
  exact (operand.succeeds_generate hs hthere).symm

/-- A deciding operand leaves out a chain without a value for its prefix: the whole evaluates to
null and cannot be rendered. -/
theorem not_renderable_of_left_out_chain :
    let s : Session Unit := ⟨Context.new (.map Dict.empty), World.start ()⟩
    let classes : Registry Unit := fun _ => ClassTable.empty
    let deep := Expr.chain [.property "missing", .property "deeper", .property "still"]
    let e := Expr.logical .and [.property "missing", deep]
    s.context.Plain ∧ s.context.root.Plain ∧
      (e.evaluate classes s.context s.context.root s.world).1 = .ok .null ∧
      ¬ (e.generate classes s.context.root).Succeeds s ∧
      (e.generateFromRoot classes s).1 =
        .error (.failed deep (.nullSource "getProperty" "deeper")) := by
  intro s classes deep e
  have hgenerate : (e.generate classes s.context.root s).1 =
      .error (.failed deep (.nullSource "getProperty" "deeper")) := rfl
  refine ⟨⟨rfl, nofun, nofun⟩, rfl, rfl, ?_, rfl⟩
  rintro ⟨f, t, h⟩
  rw [h] at hgenerate
  cases hgenerate

/-- A chain that is left out does no harm where its prefix has a value, were it null. -/
theorem renderable_of_left_out_chain :
    let s : Session Unit := ⟨Context.new (.map Dict.empty), World.start ()⟩
    let classes : Registry Unit := fun _ => ClassTable.empty
    let chain := Expr.chain [.property "missing", .property "deeper"]
    let e := Expr.logical .and [.property "missing", chain]
    (e.evaluate classes s.context s.context.root s.world).1 = .ok .null ∧
      e.LeavesOut classes s.context s.context.root chain s.context.root ∧
      (e.generate classes s.context.root).Succeeds s := by
  intro s classes chain e
  have hctx : s.context.Plain := ⟨rfl, nofun, nofun⟩
  have hvalue : (e.evaluate classes s.context s.context.root s.world).1 = .ok .null := rfl
  have hmissing : Steady
      ((Expr.property "missing").evaluate classes s.context s.context.root) (.ok .null) :=
    fun _ => rfl
  refine ⟨hvalue, .inr ⟨.null, hmissing, List.mem_singleton_self chain, rfl⟩,
    (renderable_iff_of_evaluates hctx hctx.root hvalue).2 ?_⟩
  rintro operand there (h | ⟨v, hsteady, h⟩)
  · cases h
  · have hv := hsteady s.world
    rw [hmissing s.world] at hv
    cases hv
    obtain ⟨hmem, rfl⟩ := h
    rw [List.mem_singleton.1 hmem]
    exact ⟨_, _, rfl⟩

end ObjectGraph
