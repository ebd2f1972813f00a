import ObjectGraph.Proofs.Renderings

/-!
# How large fragments get

Where no link of a chain is read more than once by the links after it, the text of a fragment takes
at most the bytes of the names and literals of the expression, and the same for every node.
-/
namespace ObjectGraph
/-! ## The text of a fragment -/

namespace Fragment

theorem size_asValue_le (f : Fragment) (hint : Option TypeHint) :
    (f.asValue hint).render.utf8ByteSize ≤ f.render.utf8ByteSize + 29 := by
  have hboxed : (valueType ++ "::Boolean(").utf8ByteSize + ")".utf8ByteSize = 29 := by decide
  have hnull : nullText.utf8ByteSize ≤ 29 := by decide
  unfold asValue
  split
  · exact hnull
  · split
    · rw [render, boxedText, String.utf8ByteSize_append, String.utf8ByteSize_append]
      omega
    · omega

theorem size_orNull_le (f : Fragment) :
    f.orNull.render.utf8ByteSize ≤ f.render.utf8ByteSize + 29 := by
  have hnull : nullText.utf8ByteSize ≤ 29 := by decide
  unfold orNull
  split
  · exact hnull
  · omega

/-- The texts of several fragments, with room for what stands between them. -/
def spread (fs : List Fragment) : Nat := (fs.map fun f => f.render.utf8ByteSize + 69).sum

theorem spread_cons (f : Fragment) (fs : List Fragment) :
    spread (f :: fs) = f.render.utf8ByteSize + 69 + spread fs := by
  rw [spread, List.map_cons, List.sum_cons, ← spread]

theorem size_joined_le (fs : List Fragment) :
    (Text.joined ", " (renderAll fs)).utf8ByteSize ≤ spread fs := by
  have hseparator : ", ".utf8ByteSize = 2 := by decide
  induction fs with
  | nil => exact Nat.le_refl 0
  | cons first rest ih =>
    rw [spread_cons]
    cases rest with
    | nil =>
      rw [renderAll, renderAll, Text.joined_singleton]
      omega
    | cons next rest =>
      rw [renderAll] at ih
      rw [renderAll, renderAll, Text.joined_cons_cons, String.utf8ByteSize_append,
        String.utf8ByteSize_append]
      omega

theorem size_guards_le (op : Connective) (fs : List Fragment) :
    (guards op fs).render.utf8ByteSize ≤ spread fs + 34 := by
  have hfixed : "\x7b let v = ".utf8ByteSize + "; if ".utf8ByteSize +
      (stopText op).utf8ByteSize + " \x7b v \x7d else \x7b ".utf8ByteSize +
      " \x7d \x7d".utf8ByteSize ≤ 69 := by
    cases op <;> decide
  induction fs with
  | nil => cases op <;> decide
  | cons first rest ih =>
    rw [spread_cons]
    cases rest with
    | nil =>
      rw [guards]
      omega
    | cons next rest =>
      simp only [guards, render, String.utf8ByteSize_append]
      omega

theorem size_compare_le (op : Comparison) (left right : Fragment) :
    (if op.apply true then equal left right else differ left right).render.utf8ByteSize ≤
      left.render.utf8ByteSize + right.render.utf8ByteSize + 33 := by
  cases op with
  | equal =>
    have hfixed : (ops ++ "::equals(&").utf8ByteSize + ", &".utf8ByteSize +
      ")".utf8ByteSize ≤ 33 := by decide
    change (equal left right).render.utf8ByteSize ≤ _
    simp only [render, String.utf8ByteSize_append] at hfixed ⊢
    omega
  | notEqual =>
    have hfixed : ("(!" ++ ops ++ "::equals(&").utf8ByteSize + ", &".utf8ByteSize +
      "))".utf8ByteSize ≤ 33 := by decide
    change (differ left right).render.utf8ByteSize ≤ _
    simp only [render, String.utf8ByteSize_append] at hfixed ⊢
    omega

end Fragment

/-! ## Sizes of expressions -/

namespace Expr

mutual
/-- The bytes of the names and literals as they are written, and as many for every node as its own
text and what stands around it can take. -/
def extent : Expr → Nat
  | const literal => (Fragment.ofLiteral literal).render.utf8ByteSize + 200
  | var name => (Text.quote name).utf8ByteSize + 200
  | property name => (Text.quote name).utf8ByteSize + 200
  | index key => key.extent + 200
  | method name args => (Text.quote name).utf8ByteSize + extentAll args + 200
  | chain links => extentAll links + 200
  | not operand => operand.extent + 200
  | logical _ operands => extentAll operands + 200
  | compare _ left right => left.extent + right.extent + 200
  | _ => 200
termination_by structural e => e

def extentAll : List Expr → Nat
  | [] => 0
  | e :: es => e.extent + extentAll es
termination_by structural es => es
end

mutual
/-- No link of a chain is read more than once by the links after it. -/
def isThrifty : Expr → Bool
  | index key => key.isThrifty
  | method _ args => allThrifty args
  | chain links => thriftyLinks links
  | not operand => operand.isThrifty
  | logical _ operands => allThrifty operands
  | compare _ left right => left.isThrifty && right.isThrifty
  | _ => true
termination_by structural e => e

def allThrifty : List Expr → Bool
  | [] => true
  | e :: es => e.isThrifty && allThrifty es
termination_by structural es => es

def thriftyLinks : List Expr → Bool
  | [] => true
  | [last] => last.isThrifty
  | link :: next :: links =>
    link.isThrifty && readsLinks (next :: links) ≤ 1 && thriftyLinks (next :: links)
termination_by structural links => links
end

/-! ## Bounds -/

open Fragment

/-- A fragment that leaves room for what may stand around it. Of the places in it, as much as
`target` takes is part of its own text. -/
def Within (own reads : Nat) (place f : Fragment) : Prop :=
  f.render.utf8ByteSize + 100 + reads * 6 ≤ own + reads * place.render.utf8ByteSize

/-- The same of several fragments. -/
def WithinAll (own reads : Nat) (place : Fragment) (fs : List Fragment) : Prop :=
  spread fs + reads * 6 ≤ own + reads * place.render.utf8ByteSize

section

variable {own own' reads reads' : Nat} {place f : Fragment} {fs : List Fragment}

namespace Within

/-- A fragment without the place. -/
theorem closed (h : f.render.utf8ByteSize ≤ own + 100) : Within (own + 200) 0 place f := by
  unfold Within
  omega

/-- A fragment that has the place once. -/
theorem once (h : f.render.utf8ByteSize ≤ own + place.render.utf8ByteSize + 94) :
    Within (own + 200) 1 place f := by
  unfold Within
  omega

theorem size_le_of_rootPlace (h : Within own reads .rootPlace f) :
    f.render.utf8ByteSize + 100 ≤ own := by
  have hroot : Fragment.rootPlace.render.utf8ByteSize = 4 := by decide
  rw [Within, hroot] at h
  omega

theorem size_le_of_targetPlace (h : Within own reads .targetPlace f) :
    f.render.utf8ByteSize + 100 ≤ own := by
  have htarget : Fragment.targetPlace.render.utf8ByteSize = 6 := by decide
  rw [Within, htarget] at h
  omega

end Within

namespace WithinAll

theorem nil : WithinAll 0 0 place [] := by
  simp [WithinAll, spread]

theorem cons (h : Within own reads place f) (hint : Option TypeHint)
    (hs : WithinAll own' reads' place fs) :
    WithinAll (own + own') (reads + reads') place (f.asValue hint :: fs) := by
  have hvalue := size_asValue_le f hint
  unfold Within at h
  unfold WithinAll at hs ⊢
  rw [spread_cons, Nat.add_mul, Nat.add_mul]
  omega

theorem spread_le_of_rootPlace (h : WithinAll own reads .rootPlace fs) : spread fs ≤ own := by
  have hroot : Fragment.rootPlace.render.utf8ByteSize = 4 := by decide
  rw [WithinAll, hroot] at h
  omega

end WithinAll

/-- A link that is read once at most adds what it has of its own to the links after it. -/
theorem Within.link {g : Fragment} (h : Within own reads place f) (hint : Option TypeHint)
    (hone : reads' ≤ 1) (hs : Within own' reads' (.group (f.asValue hint)) g) :
    Within (own + own') (reads * reads') place g := by
  have hvalue := size_asValue_le f hint
  have hparens : "(".utf8ByteSize + ")".utf8ByteSize = 2 := by decide
  have hgroup :
      (Fragment.group (f.asValue hint)).render.utf8ByteSize ≤ f.render.utf8ByteSize + 31 := by
    rw [render, String.utf8ByteSize_append, String.utf8ByteSize_append]
    omega
  unfold Within at *
  obtain rfl | rfl := Nat.le_one_iff_eq_zero_or_eq_one.1 hone
  · rw [Nat.zero_mul] at hs
    rw [Nat.mul_zero, Nat.zero_mul]
    omega
  · rw [Nat.mul_one]
    omega

end

mutual
theorem within_of_renders : ∀ {e : Expr} {place f : Fragment}, Renders e place f →
    e.isThrifty = true → Within e.extent e.reads place f
  | _, _, _, .const literal place, _ => .closed (Nat.le_add_right _ _)
  | _, _, _, .root _, _ => by
    have hsize : (Fragment.clone .rootPlace).render.utf8ByteSize ≤ 0 + 100 := by decide
    exact .closed hsize
  | _, _, _, .source place, _ => by
    have hfixed : ".clone()".utf8ByteSize = 8 := by decide
    have hsize :
        (Fragment.clone place).render.utf8ByteSize ≤ 0 + place.render.utf8ByteSize + 94 := by
      rw [render, String.utf8ByteSize_append]
      omega
    exact .once hsize
  | _, _, _, .var name _, _ => by
    have hfixed : (runtime ++ "::variable(ctx, ").utf8ByteSize + ")".utf8ByteSize = 37 := by decide
    refine .closed ?_
    rw [render, String.utf8ByteSize_append, String.utf8ByteSize_append]
    omega
  | _, _, _, .property name place, _ => by
    have hfixed : (runtime ++ "::get_property(ctx, &").utf8ByteSize + ", ".utf8ByteSize +
      ")?".utf8ByteSize = 45 := by decide
    refine .once ?_
    simp only [render, String.utf8ByteSize_append] at hfixed ⊢
    omega
  | index key, _, _, .index (f := f) hkey hint place, he => by
    have hfixed : (runtime ++ "::get_index(ctx, &").utf8ByteSize + ", &".utf8ByteSize +
      ")?".utf8ByteSize = 43 := by decide
    have hone := (within_of_renders hkey he).size_le_of_rootPlace
    have hvalue := size_asValue_le f hint
    refine .once ?_
    simp only [render, String.utf8ByteSize_append] at hfixed ⊢
    omega
  | _, _, _, .subscript s place, _ => by
    have hfixed : (runtime ++ "::get_subscript(ctx, &").utf8ByteSize + ", ".utf8ByteSize +
        (subscriptPath s).utf8ByteSize + ")?".utf8ByteSize ≤ 94 := by
      cases s <;> decide
    have hsize :
        (Fragment.subscript place s).render.utf8ByteSize ≤ 0 + place.render.utf8ByteSize + 94 := by
      simp only [render, String.utf8ByteSize_append] at hfixed ⊢
      omega
    exact .once hsize
  | method _ args, _, .call _ _ fs, .method name hargs place, he => by
    have hfixed : (runtime ++ "::call_method(ctx, &").utf8ByteSize + ", ".utf8ByteSize +
      ", &[".utf8ByteSize + "])?".utf8ByteSize = 49 := by decide
    have hall := (withinAll_of_renders hargs he).spread_le_of_rootPlace
    have hjoined := size_joined_le fs
    refine .once ?_
    simp only [render, String.utf8ByteSize_append] at hfixed ⊢
    omega
  | _, _, _, .empty _, _ => .closed (Nat.zero_le _)
  | _, _, _, .chain hlinks, he => by
    have hrest := withinLinks_of_renders hlinks he
    unfold Within at hrest ⊢
    rw [extent, reads]
    omega
  | _, _, _, .not (f := f) hoperand, he => by
    have hfixed : ("(!" ++ ops ++ "::boolean_value(&(").utf8ByteSize + ")))".utf8ByteSize ≤ 71 := by
      decide
    have hone := within_of_renders hoperand he
    have hnull := size_orNull_le f
    unfold Within at hone ⊢
    simp only [render, String.utf8ByteSize_append, extent, reads] at hfixed ⊢
    omega
  | _, _, .guards _ fs, .logical op hoperands, he => by
    have hall := withinAll_of_renders hoperands he
    have hguards := size_guards_le op fs
    unfold WithinAll at hall
    unfold Within
    rw [extent, reads]
    omega
  | _, place, _, .compare (l := l) (r := r) op hleft leftHint hright rightHint, he => by
    rw [isThrifty, Bool.and_eq_true_iff] at he
    have hl := within_of_renders hleft he.1
    have hr := within_of_renders hright he.2
    have hleftValue := size_asValue_le l leftHint
    have hrightValue := size_asValue_le r rightHint
    have hcompare := size_compare_le op (l.asValue leftHint) (r.asValue rightHint)
    unfold Within at hl hr ⊢
    rw [extent, reads, Nat.add_mul, Nat.add_mul]
    omega

theorem withinAll_of_renders : ∀ {es : List Expr} {place : Fragment} {fs : List Fragment},
    RendersAll es place fs → allThrifty es = true →
      WithinAll (extentAll es) (readsAll es) place fs
  | _, _, _, .nil _, _ => .nil
  | _, _, _, .cons h hint hs, he => by
    rw [allThrifty, Bool.and_eq_true_iff] at he
    exact .cons (within_of_renders h he.1) hint (withinAll_of_renders hs he.2)

theorem withinLinks_of_renders : ∀ {links : List Expr} {place f : Fragment},
    RendersLinks links place f → thriftyLinks links = true →
      Within (extentAll links) (readsLinks links) place f
  | _, _, _, .last h, he => within_of_renders h he
  | link :: next :: links, _, _, .link h hint hlinks, he => by
    simp only [thriftyLinks, Bool.and_eq_true_iff, decide_eq_true_eq] at he
    exact (within_of_renders h he.1.1).link hint he.1.2 (withinLinks_of_renders hlinks he.2)
end

/-- Fragments grow in proportion to the expressions. -/
theorem size_le_extent {e : Expr} {f : Fragment} (he : e.isThrifty = true)
    (h : Renders e .targetPlace f) : f.render.utf8ByteSize ≤ e.extent := by
  have hsize := (within_of_renders h he).size_le_of_targetPlace
  omega

end Expr
end ObjectGraph
