import Mathlib.Algebra.BigOperators.Ring.List
import Mathlib.Tactic.Ring
import ObjectGraph.Proofs.FragmentCalls
import ObjectGraph.Proofs.FragmentShape

/-!
# How often the parts of an expression are rendered

The fragment of a link stands in the fragment of the next link wherever that one reads its source.
So a link is rendered as often as the links after it read theirs: once, many times or not at all.
-/
namespace ObjectGraph
namespace Expr

/-! ## Counting in an expression -/

mutual
/-- The nodes that read a variable or navigate. -/
def navigations : Expr → Nat
  | var _ => 1
  | property _ => 1
  | index key => key.navigations + 1
  | subscript _ => 1
  | method _ args => navigationsAll args + 1
  | chain links => navigationsAll links
  | not operand => operand.navigations
  | logical _ operands => navigationsAll operands
  | compare _ left right => left.navigations + right.navigations
  | _ => 0
termination_by structural e => e

def navigationsAll : List Expr → Nat
  | [] => 0
  | e :: es => e.navigations + navigationsAll es
termination_by structural es => es
end

mutual
/-- How often the fragment of an expression has the place in it that it navigates from. -/
def reads : Expr → Nat
  | source => 1
  | property _ => 1
  | index _ => 1
  | subscript _ => 1
  | method _ _ => 1
  | chain links => readsLinks links
  | not operand => operand.reads
  | logical _ operands => readsAll operands
  | compare _ left right => left.reads + right.reads
  | _ => 0
termination_by structural e => e

def readsAll : List Expr → Nat
  | [] => 0
  | e :: es => e.reads + readsAll es
termination_by structural es => es

def readsLinks : List Expr → Nat
  | [] => 0
  | [last] => last.reads
  | link :: next :: links => link.reads * readsLinks (next :: links)
termination_by structural links => links
end

mutual
/-- How often each of the nodes is rendered that read a variable or navigate. -/
def renderings : Expr → List Nat
  | var _ => [1]
  | property _ => [1]
  | index key => 1 :: key.renderings
  | subscript _ => [1]
  | method _ args => 1 :: renderingsAll args
  | chain links => renderingsLinks links
  | not operand => operand.renderings
  | logical _ operands => renderingsAll operands
  | compare _ left right => left.renderings ++ right.renderings
  | _ => []
termination_by structural e => e

def renderingsAll : List Expr → List Nat
  | [] => []
  | e :: es => e.renderings ++ renderingsAll es
termination_by structural es => es

def renderingsLinks : List Expr → List Nat
  | [] => []
  | [last] => last.renderings
  | link :: next :: links =>
    link.renderings.map (· * readsLinks (next :: links)) ++ renderingsLinks (next :: links)
termination_by structural links => links
end

mutual
/-- Every link of a chain that navigates is read once by the links after it. -/
def isLinear : Expr → Bool
  | index key => key.isLinear
  | method _ args => allLinear args
  | chain links => linearLinks links
  | not operand => operand.isLinear
  | logical _ operands => allLinear operands
  | compare _ left right => left.isLinear && right.isLinear
  | _ => true
termination_by structural e => e

def allLinear : List Expr → Bool
  | [] => true
  | e :: es => e.isLinear && allLinear es
termination_by structural es => es

def linearLinks : List Expr → Bool
  | [] => true
  | [last] => last.isLinear
  | link :: next :: links =>
    link.isLinear && (link.navigations = 0 || readsLinks (next :: links) = 1) &&
      linearLinks (next :: links)
termination_by structural links => links
end

mutual
/-- Whether a name or a text in the expression has the path of the navigation functions in it. -/
def spellsPath : Expr → Bool
  | const (.string s) => Fragment.spells s
  | var name => Fragment.spells name
  | property name => Fragment.spells name
  | index key => key.spellsPath
  | method name args => Fragment.spells name || anySpellsPath args
  | chain links => anySpellsPath links
  | not operand => operand.spellsPath
  | logical _ operands => anySpellsPath operands
  | compare _ left right => left.spellsPath || right.spellsPath
  | _ => false
termination_by structural e => e

def anySpellsPath : List Expr → Bool
  | [] => false
  | e :: es => e.spellsPath || anySpellsPath es
termination_by structural es => es
end

/-! ## One entry for each node -/

mutual
theorem length_renderings : ∀ e : Expr, e.renderings.length = e.navigations
  | const _ => rfl
  | root => rfl
  | source => rfl
  | var _ => rfl
  | property _ => rfl
  | index key => congrArg (· + 1) (length_renderings key)
  | subscript _ => rfl
  | method _ args => congrArg (· + 1) (length_renderingsAll args)
  | chain links => length_renderingsLinks links
  | not operand => length_renderings operand
  | logical _ operands => length_renderingsAll operands
  | compare _ left right => by
    rw [renderings, List.length_append, length_renderings left, length_renderings right]
    rfl
termination_by structural e => e

theorem length_renderingsAll : ∀ es : List Expr, (renderingsAll es).length = navigationsAll es
  | [] => rfl
  | e :: es => by
    rw [renderingsAll, List.length_append, length_renderings e, length_renderingsAll es]
    rfl
termination_by structural es => es

theorem length_renderingsLinks : ∀ links : List Expr,
    (renderingsLinks links).length = navigationsAll links
  | [] => rfl
  | [last] => length_renderings last
  | link :: next :: links => by
    rw [renderingsLinks, List.length_append, List.length_map, length_renderings link,
      length_renderingsLinks (next :: links)]
    rfl
termination_by structural links => links
end

/-- What is rendered once before it is read `k` times is rendered once after it if `k` is one. -/
theorem forall_map_mul_eq_one_iff {ns : List Nat} {k : Nat} :
    (∀ n ∈ ns.map (· * k), n = 1) ↔ (ns = [] ∨ k = 1) ∧ ∀ n ∈ ns, n = 1 := by
  rw [List.forall_mem_map]
  constructor
  · intro h
    refine ⟨?_, fun n hn => Nat.eq_one_of_mul_eq_one_right (h n hn)⟩
    cases ns with
    | nil => exact .inl rfl
    | cons n ns => exact .inr (Nat.eq_one_of_mul_eq_one_left (h n List.mem_cons_self))
  · rintro ⟨rfl | rfl, h⟩ n hn
    · cases hn
    · rw [Nat.mul_one, h n hn]

mutual
theorem renderings_eq_one_iff : ∀ e : Expr, (∀ n ∈ e.renderings, n = 1) ↔ e.isLinear = true
  | const _ => by simp [renderings, isLinear]
  | root => by simp [renderings, isLinear]
  | source => by simp [renderings, isLinear]
  | var _ => by simp [renderings, isLinear]
  | property _ => by simp [renderings, isLinear]
  | index key => by
    have hkey := renderings_eq_one_iff key
    simp [renderings, isLinear, hkey]
  | subscript _ => by simp [renderings, isLinear]
  | method _ args => by
    have hargs := renderingsAll_eq_one_iff args
    simp [renderings, isLinear, hargs]
  | chain links => renderingsLinks_eq_one_iff links
  | not operand => renderings_eq_one_iff operand
  | logical _ operands => renderingsAll_eq_one_iff operands
  | compare _ left right => by
    rw [renderings, isLinear, List.forall_mem_append, renderings_eq_one_iff left,
      renderings_eq_one_iff right, Bool.and_eq_true_iff]
termination_by structural e => e

theorem renderingsAll_eq_one_iff : ∀ es : List Expr,
    (∀ n ∈ renderingsAll es, n = 1) ↔ allLinear es = true
  | [] => by simp [renderingsAll, allLinear]
  | e :: es => by
    rw [renderingsAll, allLinear, List.forall_mem_append, renderings_eq_one_iff e,
      renderingsAll_eq_one_iff es, Bool.and_eq_true_iff]
termination_by structural es => es

theorem renderingsLinks_eq_one_iff : ∀ links : List Expr,
    (∀ n ∈ renderingsLinks links, n = 1) ↔ linearLinks links = true
  | [] => by simp [renderingsLinks, linearLinks]
  | [last] => renderings_eq_one_iff last
  | link :: next :: links => by
    have hnil : link.renderings = [] ↔ link.navigations = 0 := by
      rw [← length_renderings, List.length_eq_zero_iff]
    rw [renderingsLinks, linearLinks, List.forall_mem_append, forall_map_mul_eq_one_iff,
      renderings_eq_one_iff link, renderingsLinks_eq_one_iff (next :: links), hnil]
    simp only [Bool.and_eq_true_iff, Bool.or_eq_true_iff, decide_eq_true_eq]
    constructor
    · rintro ⟨⟨hread, hlink⟩, hlinks⟩
      exact ⟨⟨hlink, hread⟩, hlinks⟩
    · rintro ⟨⟨hlink, hread⟩, hlinks⟩
      exact ⟨⟨hread, hlink⟩, hlinks⟩
termination_by structural links => links
end

/-! ## Generation -/

/-- What the fragment of an expression has of its own and of the place it is rendered from. -/
structure Rendered (own reads : Nat) (place f : Fragment) : Prop where
  spellsPath : place.spellsPath = false → f.spellsPath = false
  calls : f.calls = own + reads * place.calls

namespace Rendered

variable {own reads : Nat} {place f : Fragment}

/-- A fragment without the place. -/
theorem closed (hspells : f.spellsPath = false) (hcalls : f.calls = own) :
    Rendered own 0 place f where
  spellsPath _ := hspells
  calls := by omega

/-- A fragment that has the place once. -/
theorem once (hspells : place.spellsPath = false → f.spellsPath = false)
    (hcalls : f.calls = own + place.calls) : Rendered own 1 place f where
  spellsPath := hspells
  calls := by omega

theorem asValue (h : Rendered own reads place f) (hint : Option TypeHint) :
    Rendered own reads place (f.asValue hint) := by
  unfold Fragment.asValue
  split
  · exact ⟨fun _ => rfl, h.calls⟩
  · split
    · exact ⟨h.spellsPath, h.calls⟩
    · exact h

theorem orNull (h : Rendered own reads place f) : Rendered own reads place f.orNull := by
  unfold Fragment.orNull
  split
  · exact ⟨fun _ => rfl, h.calls⟩
  · exact h

/-- At the root the fragment has only what is its own. -/
theorem calls_eq (h : Rendered own reads .rootPlace f) : f.calls = own := by
  have hcalls : f.calls = own + reads * 0 := h.calls
  omega

end Rendered

/-- The same of several fragments. -/
structure RenderedAll (own reads : Nat) (place : Fragment) (fs : List Fragment) : Prop where
  spellsPath : place.spellsPath = false → Fragment.anySpellsPath fs = false
  calls : Fragment.callsAll fs = own + reads * place.calls

namespace RenderedAll

variable {own own' reads reads' : Nat} {place f : Fragment} {fs : List Fragment}

theorem nil : RenderedAll 0 0 place [] := ⟨fun _ => rfl, by simp [Fragment.callsAll]⟩

theorem cons (h : Rendered own reads place f) (hs : RenderedAll own' reads' place fs) :
    RenderedAll (own + own') (reads + reads') place (f :: fs) where
  spellsPath hplace := by
    rw [Fragment.anySpellsPath, h.spellsPath hplace, hs.spellsPath hplace]
    rfl
  calls := by
    rw [Fragment.callsAll, h.calls, hs.calls, Nat.add_mul]
    omega

theorem guards (op : Connective) (h : RenderedAll own reads place fs) :
    Rendered own reads place (.guards op fs) := by
  have hcalls (fs : List Fragment) :
      (Fragment.guards op fs).calls = Fragment.callsAll fs ∧
        (Fragment.anySpellsPath fs = false → (Fragment.guards op fs).spellsPath = false) := by
    induction fs with
    | nil => exact ⟨rfl, fun _ => rfl⟩
    | cons first rest ih =>
      cases rest with
      | nil => exact ⟨rfl, fun h => (Bool.or_eq_false_iff.1 h).1⟩
      | cons next rest =>
        refine ⟨congrArg (first.calls + ·) ih.1, fun h => ?_⟩
        obtain ⟨hfirst, hrest⟩ := Bool.or_eq_false_iff.1 h
        exact Bool.or_eq_false_iff.2 ⟨hfirst, ih.2 hrest⟩
  exact ⟨fun hplace => (hcalls fs).2 (h.spellsPath hplace), (hcalls fs).1.trans h.calls⟩

theorem compare {left right : Fragment} (op : Comparison)
    (h : RenderedAll own reads place [left, right]) :
    Rendered own reads place (if op.apply true then .equal left right else .differ left right) := by
  have hspells (hplace : place.spellsPath = false) :
      (left.spellsPath || right.spellsPath) = false := by
    have hall := h.spellsPath hplace
    simpa only [Fragment.anySpellsPath, Bool.or_false] using hall
  cases op with
  | equal => exact ⟨hspells, h.calls⟩
  | notEqual => exact ⟨hspells, h.calls⟩

end RenderedAll

mutual
/-- A step of navigation has the place once. All else comes from the parts, with the fragment of a
link as the place of the links after it. -/
theorem rendered_of_renders : ∀ {e : Expr} {place f : Fragment}, Renders e place f →
    e.spellsPath = false → Rendered e.renderings.sum e.reads place f
  | _, _, _, .const literal _, he => by
    cases literal with
    | string t => exact .closed he rfl
    | _ => exact .closed rfl rfl
  | _, _, _, .root _, _ => .closed rfl rfl
  | _, _, _, .source _, _ => .once id (Nat.zero_add _).symm
  | _, _, _, .var _ _, he => .closed he rfl
  | _, _, _, .property _ _, he =>
    .once (fun hplace => Bool.or_eq_false_iff.2 ⟨hplace, he⟩) (Nat.add_comm _ _)
  | index key, _, _, .index (f := f) hkey hint place, he => by
    have hone := (rendered_of_renders hkey he).asValue hint
    refine .once (fun hplace => Bool.or_eq_false_iff.2 ⟨hplace, hone.spellsPath rfl⟩) ?_
    change place.calls + (f.asValue hint).calls + 1 = 1 + key.renderings.sum + place.calls
    rw [hone.calls_eq]
    omega
  | _, _, _, .subscript _ _, _ => .once id (Nat.add_comm _ _)
  | method _ args, _, .call _ _ fs, .method name hargs place, he => by
    obtain ⟨hname, hargsPath⟩ := Bool.or_eq_false_iff.1 he
    have hall := renderedAll_of_renders hargs hargsPath
    refine .once (fun hplace => ?_) ?_
    · exact Bool.or_eq_false_iff.2 ⟨Bool.or_eq_false_iff.2 ⟨hplace, hname⟩, hall.spellsPath rfl⟩
    · have hcalls : Fragment.callsAll fs = (renderingsAll args).sum + readsAll args * 0 :=
        hall.calls
      change place.calls + Fragment.callsAll fs + 1 = 1 + (renderingsAll args).sum + place.calls
      omega
  | _, _, _, .empty _, _ => .closed rfl rfl
  | _, _, _, .chain hlinks, he => renderedLinks_of_renders hlinks he
  | _, _, _, .not hoperand, he => by
    have hone := (rendered_of_renders hoperand he).orNull
    exact ⟨hone.spellsPath, hone.calls⟩
  | _, _, _, .logical op hoperands, he => (renderedAll_of_renders hoperands he).guards op
  | _, _, _, .compare op hleft leftHint hright rightHint, he => by
    rw [spellsPath, Bool.or_eq_false_iff] at he
    have hl := (rendered_of_renders hleft he.1).asValue leftHint
    have hr := (rendered_of_renders hright he.2).asValue rightHint
    have hcompare := (RenderedAll.cons hl (.cons hr .nil)).compare op
    simpa [renderings, reads] using hcompare

theorem renderedAll_of_renders : ∀ {es : List Expr} {place : Fragment} {fs : List Fragment},
    RendersAll es place fs → anySpellsPath es = false →
      RenderedAll (renderingsAll es).sum (readsAll es) place fs
  | _, _, _, .nil _, _ => .nil
  | _, _, _, .cons h hint hs, he => by
    rw [anySpellsPath, Bool.or_eq_false_iff] at he
    rw [renderingsAll, List.sum_append]
    exact .cons ((rendered_of_renders h he.1).asValue hint) (renderedAll_of_renders hs he.2)

theorem renderedLinks_of_renders : ∀ {links : List Expr} {place f : Fragment},
    RendersLinks links place f → anySpellsPath links = false →
      Rendered (renderingsLinks links).sum (readsLinks links) place f
  | _, _, _, .last h, he => by
    rw [anySpellsPath, Bool.or_eq_false_iff] at he
    exact rendered_of_renders h he.1
  | link :: next :: links, _, _, .link (f := f) h hint hlinks, he => by
    rw [anySpellsPath, Bool.or_eq_false_iff] at he
    have hone := (rendered_of_renders h he.1).asValue hint
    have hrest := renderedLinks_of_renders hlinks he.2
    refine ⟨fun hplace => hrest.spellsPath (hone.spellsPath hplace), ?_⟩
    have hsum : (link.renderings.map (· * readsLinks (next :: links))).sum =
        link.renderings.sum * readsLinks (next :: links) := by
      have hmul := List.sum_map_mul_right link.renderings id (readsLinks (next :: links))
      rw [List.map_id] at hmul
      exact hmul
    rw [hrest.calls, renderingsLinks, List.sum_append, hsum, readsLinks]
    change _ + readsLinks (next :: links) * (f.asValue hint).calls = _
    rw [hone.calls]
    ring
end

/-- The path of the navigation functions occurs in the text as often as its nodes are rendered. -/
theorem pathCount_of_renders {e : Expr} {f : Fragment} (he : e.spellsPath = false)
    (h : Renders e .targetPlace f) : Fragment.pathCount f.render = e.renderings.sum := by
  have hrendered := rendered_of_renders h he
  have hcalls : f.calls = e.renderings.sum + e.reads * 0 := hrendered.calls
  rw [Fragment.pathCount_render f (hrendered.spellsPath rfl), hcalls]
  rfl

end Expr
end ObjectGraph
