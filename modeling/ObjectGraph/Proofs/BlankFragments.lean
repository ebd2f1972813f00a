import ObjectGraph.Proofs.ChainNesting
import ObjectGraph.Proofs.FragmentShape
import ObjectGraph.Proofs.FragmentText

/-!
# Blank fragments

An empty chain has the blank fragment, and so has an expression that ends in an empty chain, that
is whose last link, or the last link of that link and so on, is one. No other expression has.
Wherever a value is needed, the text of null stands for a blank fragment. Evaluation, however,
leaves an empty chain with the value that it came with. So the two agree where the links on the way
to the empty chain come to null, and nowhere else.
-/
namespace ObjectGraph

variable {σ : Type}

namespace Fragment

theorem asValue_ne_blank (f : Fragment) (hint : Option TypeHint) : f.asValue hint ≠ blank := by
  by_cases h : f = blank
  · subst h
    exact nofun
  · rw [asValue_of_ne_blank h]
    split
    · exact nofun
    · exact h

theorem guards_ne_blank (op : Connective) {fs : List Fragment} (h : ∀ f ∈ fs, f ≠ blank) :
    guards op fs ≠ blank := by
  match fs with
  | [] => exact nofun
  | [last] => exact h last (List.mem_singleton_self last)
  | _ :: _ :: _ => exact nofun

end Fragment

namespace Expr

/-! ## The way to the tip -/

mutual
/-- The links on the way to the tip of an expression. -/
def approach : Expr → List Expr
  | chain links => approachOfLinks links
  | _ => []
termination_by structural e => e

def approachOfLinks : List Expr → List Expr
  | [] => []
  | [last] => last.approach
  | link :: next :: links => link :: approachOfLinks (next :: links)
termination_by structural links => links
end

section

variable {classes : Registry σ} {ctx : Context σ}

mutual
/-- The tip is evaluated against the value of the links on the way to it. -/
theorem evaluate_eq_approach : ∀ (e : Expr) (here : Value),
    e.evaluate classes ctx here =
      evaluateLinks classes ctx e.approach here >>= e.tip.evaluate classes ctx
  | chain links, here => evaluateLinks_eq_approach links here
  | const _, _ => rfl
  | root, _ => rfl
  | source, _ => rfl
  | var _, _ => rfl
  | property _, _ => rfl
  | index _, _ => rfl
  | subscript _, _ => rfl
  | method _ _, _ => rfl
  | not _, _ => rfl
  | logical _ _, _ => rfl
  | compare _ _ _, _ => rfl
termination_by structural e => e

theorem evaluateLinks_eq_approach : ∀ (links : List Expr) (here : Value),
    evaluateLinks classes ctx links here =
      evaluateLinks classes ctx (approachOfLinks links) here >>=
        (tipOfLinks links).evaluate classes ctx
  | [], _ => rfl
  | [last], here => by
    rw [evaluateLinks_singleton]
    exact evaluate_eq_approach last here
  | link :: next :: links, here => by
    rw [approachOfLinks, tipOfLinks, evaluateLinks, evaluateLinks, bind_assoc]
    exact bind_congr fun value => evaluateLinks_eq_approach (next :: links) value
termination_by structural links => links
end

theorem evaluate_of_tip {e : Expr} (h : e.tip = chain []) (here : Value) :
    e.evaluate classes ctx here = evaluateLinks classes ctx e.approach here := by
  rw [evaluate_eq_approach, h]
  exact bind_pure _

end

/-! ## Which fragments are blank -/

theorem ne_blank_of_rendersAll {es : List Expr} {place : Fragment} {fs : List Fragment}
    (h : RendersAll es place fs) : ∀ f ∈ fs, f ≠ .blank := by
  induction es generalizing fs with
  | nil =>
    cases h
    exact List.forall_mem_nil _
  | cons e es ih =>
    obtain _ | ⟨_, hint, hs⟩ := h
    exact List.forall_mem_cons.2 ⟨Fragment.asValue_ne_blank _ hint, ih hs⟩

mutual
theorem blank_iff_of_renders : ∀ (e : Expr) {place f : Fragment}, Renders e place f →
    (f = .blank ↔ e.tip = chain [])
  | chain links, _, _, h => by
    cases h with
    | empty => exact iff_of_true rfl rfl
    | chain hlinks => exact blank_iff_of_rendersLinks links hlinks
  | const literal, _, _, h => by
    cases h
    refine iff_of_false ?_ nofun
    cases literal <;> exact nofun
  | logical op operands, _, _, h => by
    cases h with
    | logical _ hoperands =>
      exact iff_of_false (Fragment.guards_ne_blank op (ne_blank_of_rendersAll hoperands)) nofun
  | compare op left right, _, _, h => by
    cases h
    refine iff_of_false ?_ nofun
    split <;> exact nofun
  | root, _, _, .root _ => iff_of_false nofun nofun
  | source, _, _, .source _ => iff_of_false nofun nofun
  | var _, _, _, .var _ _ => iff_of_false nofun nofun
  | property _, _, _, .property _ _ => iff_of_false nofun nofun
  | index _, _, _, .index _ _ _ => iff_of_false nofun nofun
  | subscript _, _, _, .subscript _ _ => iff_of_false nofun nofun
  | method _ _, _, _, .method _ _ _ => iff_of_false nofun nofun
  | not _, _, _, .not _ => iff_of_false nofun nofun
termination_by structural e => e

theorem blank_iff_of_rendersLinks : ∀ (links : List Expr) {place f : Fragment},
    RendersLinks links place f → (f = .blank ↔ tipOfLinks links = chain [])
  | [], _, _, h => nomatch h
  | [last], _, _, .last h => blank_iff_of_renders last h
  | _ :: next :: links, _, _, .link _ _ hlinks => blank_iff_of_rendersLinks (next :: links) hlinks
termination_by structural links => links
end

/-! ## What stands behind a blank fragment -/

section

variable {classes : Registry σ} {ctx : Context σ} {f : Fragment} {hint : Option TypeHint}

mutual
/-- An expression that was rendered and ends in an empty chain has a value. -/
theorem exists_value_of_gives (hctx : ctx.Plain) : ∀ (e : Expr) {here : Value} {c : Context σ},
    e.Gives classes here c f hint → e.tip = chain [] → here.Plain → c.reset = ctx.reset →
      ∃ v, Steady (e.evaluate classes ctx here) (.ok v)
  | chain [], here, _, _, _, _, _ => ⟨here, fun _ => rfl⟩
  | chain (link :: links), _, _, h, htip, hhere, hc =>
    exists_value_of_linksGive hctx (link :: links)
      ((gives_chain_iff hctx hc hhere (List.cons_ne_nil link links)).1 h) htip hhere hc
  | const _, _, _, _, htip, _, _ => nomatch htip
  | root, _, _, _, htip, _, _ => nomatch htip
  | source, _, _, _, htip, _, _ => nomatch htip
  | var _, _, _, _, htip, _, _ => nomatch htip
  | property _, _, _, _, htip, _, _ => nomatch htip
  | index _, _, _, _, htip, _, _ => nomatch htip
  | subscript _, _, _, _, htip, _, _ => nomatch htip
  | method _ _, _, _, _, htip, _, _ => nomatch htip
  | not _, _, _, _, htip, _, _ => nomatch htip
  | logical _ _, _, _, _, htip, _, _ => nomatch htip
  | compare _ _ _, _, _, _, htip, _, _ => nomatch htip
termination_by structural e => e

theorem exists_value_of_linksGive (hctx : ctx.Plain) : ∀ (links : List Expr) {here : Value}
    {c : Context σ}, LinksGive classes ctx links here c f hint → tipOfLinks links = chain [] →
      here.Plain → c.reset = ctx.reset →
        ∃ v, Steady (evaluateLinks classes ctx links here) (.ok v)
  | [], _, _, h, _, _, _ => h.elim
  | [last], _, _, h, htip, hhere, hc => by
    rw [evaluateLinks_singleton]
    exact exists_value_of_gives hctx last h htip hhere hc
  | link :: next :: links, _, _, ⟨_, _, _, _, hv, hsteady, hlinks⟩, htip, _, hc => by
    obtain ⟨v, hrest⟩ := exists_value_of_linksGive hctx (next :: links) hlinks htip hv hc
    exact ⟨v, hsteady.bind hrest⟩
termination_by structural links => links
end

end

end Expr

/-- A fragment is blank exactly when its expression ends in an empty chain. Then the text of null
takes its place, in a routine as under a negation, and to evaluate the expression is to evaluate
the links on the way to the empty chain, which over plain data have a value, the same in all
worlds. So the blank fragment is right where they come to null, and wrong where they come to
anything else. -/
theorem blank_fragment_iff_empty_tip {classes : Registry σ} {s t : Session σ} {e : Expr}
    {here : Value} {f : Fragment} (h : e.generate classes here s = (.ok f, t)) :
    (Text.isBlank f.render = true ↔ e.tip = .chain []) ∧
    (Text.isBlank f.render = true →
      f.orNull.render = Fragment.nullText ∧
      (∀ hint, Routine.body f.render hint = Fragment.nullText) ∧
      e.evaluate classes s.context here =
        Expr.evaluateLinks classes s.context e.approach here ∧
      (s.context.Plain → here.Plain →
        ∃ v, Steady (e.evaluate classes s.context here) (.ok v))) := by
  have htip : f = .blank ↔ e.tip = .chain [] :=
    e.blank_iff_of_renders (e.renders_generate here h)
  refine ⟨f.isBlank_render.trans htip, fun hblank => ?_⟩
  obtain rfl := f.isBlank_render.1 hblank
  refine ⟨rfl, fun _ => rfl, Expr.evaluate_of_tip (htip.1 rfl) here, fun hctx hhere => ?_⟩
  exact e.exists_value_of_gives hctx (Expr.gives_of_ok h) (htip.1 rfl) hhere rfl

/-- An empty chain on an integer is rendered to nothing, which stands for null, and evaluated to
the integer. -/
theorem blank_fragment_of_integer_source :
    let s : Session Unit := ⟨Context.new (.integer 5), World.start ()⟩
    let classes : Registry Unit := fun _ => ClassTable.empty
    let e := Expr.chain []
    s.context.Plain ∧ s.context.root.Plain ∧
      ∃ f t, e.generate classes s.context.root s = (.ok f, t) ∧ Text.isBlank f.render = true ∧
        Routine.body f.render t.context.currentType = Fragment.nullText ∧
        (e.evaluate classes s.context s.context.root s.world).1 = .ok (.integer 5) ∧
        (e.evaluate classes s.context s.context.root s.world).1 ≠ .ok .null := by
  intro s classes e
  exact ⟨⟨rfl, nofun, nofun⟩, rfl, .blank, _, rfl, rfl, rfl, rfl, nofun⟩

/-- The empty chain stands two chains deep, and the links before it come to null. -/
theorem blank_fragment_of_missing_name :
    let s : Session Unit :=
      ⟨Context.new (.map (Dict.empty.insert "user" (.map Dict.empty))), World.start ()⟩
    let classes : Registry Unit := fun _ => ClassTable.empty
    let e := Expr.chain [.property "user", .chain [.property "name", .chain []]]
    let links := [Expr.property "user", .property "name"]
    (∃ t, e.generate classes s.context.root s = (.ok .blank, t)) ∧
      e.evaluate classes s.context s.context.root =
        Expr.evaluateLinks classes s.context links s.context.root ∧
      (Expr.evaluateLinks classes s.context links s.context.root s.world).1 = .ok .null ∧
      ∃ v, Steady (e.evaluate classes s.context s.context.root) (.ok v) := by
  intro s classes e links
  have hctx : s.context.Plain := ⟨rfl, nofun, nofun⟩
  have hgenerate : ∃ t, e.generate classes s.context.root s = (.ok .blank, t) := ⟨_, rfl⟩
  obtain ⟨t, h⟩ := hgenerate
  obtain ⟨-, hblank⟩ := blank_fragment_iff_empty_tip h
  obtain ⟨-, -, hevaluate, hvalue⟩ := hblank rfl
  exact ⟨⟨t, h⟩, hevaluate, rfl, hvalue hctx rfl⟩

end ObjectGraph
