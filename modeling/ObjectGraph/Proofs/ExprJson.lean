import ObjectGraph.Expr.Json
import ObjectGraph.Proofs.JsonReading
import ObjectGraph.Proofs.StringBodies

/-!
# Expressions as JSON

What is written for an expression is JSON, and where there is room for its arrays and objects it is
read as that expression, each literal in its kind.
-/
namespace ObjectGraph

open Json (Tree Members)

/-! ## Depth -/

namespace Json.Tree

mutual
/-- How many containers stand around the innermost value. -/
def depth : Tree → Nat
  | array items => depthItems items + 1
  | object members => depthMembers members + 1
  | _ => 0
termination_by structural tree => tree

def depthItems : List Tree → Nat
  | [] => 0
  | item :: items => max item.depth (depthItems items)
termination_by structural items => items

def depthMembers : Members Tree → Nat
  | .nil => 0
  | .cons _ value rest => max value.depth (depthMembers rest)
termination_by structural members => members
end

theorem depth_array_le {items : List Tree} {room : Nat} :
    (array items).depth ≤ room ↔ room ≠ 0 ∧ depthItems items ≤ room - 1 := by
  rw [depth]
  omega

theorem depthMembers_le {fields : List (String × Tree)} {room : Nat} :
    depthMembers (Members.ofList (fields.map fun field => (field.1.toList, field.2))) ≤ room ↔
      ∀ field ∈ fields, field.2.depth ≤ room := by
  induction fields with
  | nil => simp [Members.ofList, depthMembers]
  | cons field fields ih =>
    rw [List.map_cons, Members.ofList, depthMembers, Nat.max_le, ih, List.forall_mem_cons]

theorem depth_record_le {fields : List (String × Tree)} {room : Nat} :
    (record fields).depth ≤ room ↔ room ≠ 0 ∧ ∀ field ∈ fields, field.2.depth ≤ room - 1 := by
  rw [record, depth, ← depthMembers_le]
  omega

theorem depth_ofText (s : String) : (ofText s).depth = 0 := rfl

end Json.Tree

/-! ## Literals -/

namespace Literal

def floats : Literal → List Binary64
  | float x => [x]
  | _ => []

theorem toTree_float {x : Binary64} (h : x.isFinite = true) :
    (float x).toTree = .numeral (Decimal.json.text x).toList := by
  rw [toTree, if_pos h]

theorem depth_toTree (literal : Literal) : literal.toTree.depth = 0 := by
  cases literal with
  | float x =>
    rw [toTree]
    split <;> rfl
  | _ => rfl

theorem ofTree?_numeral {chars : List Char} {n : Json.Number}
    (h : Json.Numeral.read? chars = some n) : ofTree? (.numeral chars) = some (ofNumber n) := by
  obtain ⟨m, hm, hn⟩ := Option.bind_eq_some_iff.1 h
  simp [ofTree?, hm, hn]

theorem readable_numeral {chars : List Char} {n : Json.Number}
    (h : Json.Numeral.read? chars = some n) : (Tree.numeral chars).Readable := by
  obtain ⟨m, hm, -⟩ := Option.bind_eq_some_iff.1 h
  rw [Tree.Readable, hm]
  rfl

/-- A literal is read back with its kind. -/
theorem ofTree?_toTree {literal : Literal}
    (h : ∀ x ∈ literal.floats, x.isFinite = true ∧ x.ReadsBack) :
    literal.toTree.Readable ∧ ofTree? literal.toTree = some literal := by
  cases literal with
  | null => exact ⟨trivial, rfl⟩
  | boolean b => exact ⟨trivial, rfl⟩
  | integer n =>
    have hread := Json.Numeral.read?_integer n
    exact ⟨readable_numeral hread, ofTree?_numeral hread⟩
  | float x =>
    obtain ⟨hfinite, hback⟩ := h x (List.mem_singleton_self x)
    have hread := Json.Numeral.read?_float hfinite hback
    rw [toTree_float hfinite]
    exact ⟨readable_numeral hread, ofTree?_numeral hread⟩
  | string s =>
    refine ⟨Json.isSome_pieces?_encode s.toList, ?_⟩
    simp [toTree, Tree.ofText, ofTree?]

theorem same_self (literal : Literal) (h : ∀ x ∈ literal.floats, x.isFinite = true) :
    literal.same literal = true := by
  cases literal with
  | float x =>
    have hfinite := h x (List.mem_singleton_self x)
    simp only [Binary64.isFinite, ne_eq, decide_not, Bool.not_eq_true',
      decide_eq_false_iff_not] at hfinite
    simp [same, Binary64.isNaN, hfinite]
  | null => rfl
  | _ => simp [same]

end Literal

/-! ## Words -/

@[simp] theorem tag?_ofText (room : Nat) (s : String) : tag? room (.ofText s) = some s :=
  Json.decode?_encode s

@[simp] theorem Subscript.ofWord?_word (s : Subscript) : ofWord? s.word = some s := by
  cases s <;> rfl

@[simp] theorem Connective.ofWord?_word (op : Connective) : ofWord? op.word = some op := by
  cases op <;> rfl

@[simp] theorem Comparison.ofWord?_word (op : Comparison) : ofWord? op.word = some op := by
  cases op <;> rfl

/-! ## Content and room -/

namespace Expr

mutual
/-- The doubles written in the expression. -/
def floats : Expr → List Binary64
  | const literal => literal.floats
  | index key => key.floats
  | method _ args => floatsOf args
  | chain links => floatsOf links
  | not operand => operand.floats
  | logical _ operands => floatsOf operands
  | compare _ left right => left.floats ++ right.floats
  | _ => []
termination_by structural e => e

def floatsOf : List Expr → List Binary64
  | [] => []
  | e :: es => e.floats ++ floatsOf es
termination_by structural es => es
end

mutual
/-- There is room for the containers around what is written for the expression. -/
def Fits : Expr → Nat → Prop
  | const _, room => room ≠ 0
  | root, _ => True
  | source, _ => True
  | var _, room => room ≠ 0
  | property _, room => room ≠ 0
  | index key, room => room ≠ 0 ∧ key.Fits (room - 1)
  | subscript _, room => room ≠ 0
  | method _ args, room =>
    room ≠ 0 ∧ room - 1 ≠ 0 ∧ room - 1 - 1 ≠ 0 ∧ AllFit args (room - 1 - 1 - 1)
  | chain links, room => room ≠ 0 ∧ room - 1 ≠ 0 ∧ AllFit links (room - 1 - 1)
  | not operand, room => room ≠ 0 ∧ operand.Fits (room - 1)
  | logical _ operands, room =>
    room ≠ 0 ∧ room - 1 ≠ 0 ∧ room - 1 - 1 ≠ 0 ∧ AllFit operands (room - 1 - 1 - 1)
  | compare _ left right, room =>
    room ≠ 0 ∧ room - 1 ≠ 0 ∧ left.Fits (room - 1 - 1) ∧ right.Fits (room - 1 - 1)
termination_by structural e => e

def AllFit : List Expr → Nat → Prop
  | [], _ => True
  | e :: es, room => e.Fits room ∧ AllFit es room
termination_by structural es => es
end

section Depth

open Json.Tree (depth_record_le depth_array_le depth_ofText)

mutual
theorem depth_toTree_le : ∀ (e : Expr) {room : Nat}, e.toTree.depth ≤ room ↔ e.Fits room
  | const literal, room => by simp [toTree, Fits, depth_record_le, literal.depth_toTree]
  | root, _ => by simp [toTree, Fits, depth_ofText]
  | source, _ => by simp [toTree, Fits, depth_ofText]
  | var _, _ => by simp [toTree, Fits, depth_record_le, depth_ofText]
  | property _, _ => by simp [toTree, Fits, depth_record_le, depth_ofText]
  | index key, _ => by simp [toTree, Fits, depth_record_le, depth_toTree_le key]
  | subscript _, _ => by simp [toTree, Fits, depth_record_le, depth_ofText]
  | method _ args, _ => by
    simp [toTree, Fits, depth_record_le, depth_array_le, depth_ofText, depth_toTrees_le args]
  | chain links, _ => by
    simp [toTree, Fits, depth_record_le, depth_array_le, depth_toTrees_le links]
  | not operand, _ => by simp [toTree, Fits, depth_record_le, depth_toTree_le operand]
  | logical _ operands, _ => by
    simp [toTree, Fits, depth_record_le, depth_array_le, depth_ofText, depth_toTrees_le operands]
  | compare _ left right, _ => by
    simp [toTree, Fits, depth_record_le, depth_ofText, depth_toTree_le left,
      depth_toTree_le right]
termination_by structural e => e

theorem depth_toTrees_le : ∀ (es : List Expr) {room : Nat},
    Tree.depthItems (toTrees es) ≤ room ↔ AllFit es room
  | [], _ => by simp [toTrees, AllFit, Tree.depthItems]
  | e :: es, _ => by
    rw [toTrees, Tree.depthItems, Nat.max_le, depth_toTree_le e, depth_toTrees_le es, AllFit]
termination_by structural es => es
end

end Depth

/-! ## Reading what was written -/

@[simp] theorem text?_ofText (s : String) : text? (.ofText s) = some s := Json.decode?_encode s

/-- The names of forms and fields. -/
def keys : List String :=
  ["const", "variable", "property", "index", "subscript", "method", "chain", "not", "logical",
    "compare", "name", "args", "op", "operands", "left", "right"]

theorem encode_key : ∀ key ∈ keys, Json.encode key.toList = key.toList := by
  decide

theorem decode?_key (key : String) (h : key ∈ keys) : Json.decode? key.toList = some key := by
  rw [← encode_key key h, Json.decode?_encode]

theorem isSome_pieces?_key (key : String) (h : key ∈ keys) : (Json.pieces? key.toList).isSome := by
  rw [← encode_key key h]
  exact Json.isSome_pieces?_encode key.toList

section Record

variable (key₁ key₂ key₃ : String) (value₁ value₂ value₃ : Tree)

theorem record_singleton :
    Tree.record [(key₁, value₁)] = .object (.cons key₁.toList value₁ .nil) := rfl

theorem record_pair : Tree.record [(key₁, value₁), (key₂, value₂)] =
    .object (.cons key₁.toList value₁ (.cons key₂.toList value₂ .nil)) := rfl

theorem record_triple : Tree.record [(key₁, value₁), (key₂, value₂), (key₃, value₃)] =
    .object (.cons key₁.toList value₁ (.cons key₂.toList value₂ (.cons key₃.toList value₃ .nil))) :=
  rfl

end Record

/-- The fields of a comparison in the order in which they are written. -/
theorem compareOf?_record (op : Comparison) {room : Nat} {left right : Expr} {l r : Tree}
    (hleft : ofTree? room l = some left) (hright : ofTree? room r = some right) :
    compareOf? room (.cons "op".toList (.ofText op.word)
      (.cons "left".toList l (.cons "right".toList r .nil))) none none none =
        some (compare op left right) := by
  iterate 4
    unfold compareOf?
    simp only [decode?_key "op" (by decide), decode?_key "left" (by decide),
      decode?_key "right" (by decide), tag?_ofText, Comparison.ofWord?_word, Option.bind_some,
      hleft, hright]

mutual
/-- An expression is read back where there is room for it. -/
theorem ofTree?_toTree : ∀ (e : Expr) {room : Nat},
    (∀ x ∈ e.floats, x.isFinite = true ∧ x.ReadsBack) → e.Fits room →
      ofTree? room e.toTree = some e
  | const literal, room, hfloats, h0 => by
    unfold toTree ofTree?
    simp only [record_singleton, decode?_key "const" (by decide), if_neg h0,
      (Literal.ofTree?_toTree hfloats).2, Option.map_some]
  | root, _, _, _ => congrArg (Option.bind · plain?) (Json.decode?_encode "root")
  | source, _, _, _ => congrArg (Option.bind · plain?) (Json.decode?_encode "this")
  | var name, room, _, h0 => by
    unfold toTree ofTree?
    simp only [record_singleton, decode?_key "variable" (by decide), if_neg h0, text?_ofText,
      Option.map_some]
  | property name, room, _, h0 => by
    unfold toTree ofTree?
    simp only [record_singleton, decode?_key "property" (by decide), if_neg h0, text?_ofText,
      Option.map_some]
  | index key, room, hfloats, ⟨h0, hkey⟩ => by
    unfold toTree ofTree?
    simp only [record_singleton, decode?_key "index" (by decide), if_neg h0,
      ofTree?_toTree key hfloats hkey, Option.map_some]
  | subscript s, room, _, h0 => by
    unfold toTree ofTree?
    simp only [record_singleton, decode?_key "subscript" (by decide), if_neg h0, tag?_ofText,
      Subscript.ofWord?_word, Option.bind_some, Option.map_some]
  | method name args, room, hfloats, ⟨h0, h1, h2, hargs⟩ => by
    unfold toTree ofTree?
    simp only [record_singleton, record_pair, decode?_key "method" (by decide), if_neg h0,
      if_neg h1, methodOf?, decode?_key "name" (by decide), decode?_key "args" (by decide),
      text?_ofText, ofList?, if_neg h2, ofItems?_toTrees args hfloats hargs]
  | chain links, room, hfloats, ⟨h0, h1, hlinks⟩ => by
    unfold toTree ofTree?
    simp only [record_singleton, decode?_key "chain" (by decide), if_neg h0, ofList?, if_neg h1,
      ofItems?_toTrees links hfloats hlinks, Option.map_some]
  | not operand, room, hfloats, ⟨h0, hoperand⟩ => by
    unfold toTree ofTree?
    simp only [record_singleton, decode?_key "not" (by decide), if_neg h0,
      ofTree?_toTree operand hfloats hoperand, Option.map_some]
  | logical op operands, room, hfloats, ⟨h0, h1, h2, hoperands⟩ => by
    unfold toTree ofTree?
    simp only [record_singleton, record_pair, decode?_key "logical" (by decide), if_neg h0,
      if_neg h1, logicalOf?, decode?_key "op" (by decide), decode?_key "operands" (by decide),
      tag?_ofText, Connective.ofWord?_word, Option.bind_some, ofList?, if_neg h2,
      ofItems?_toTrees operands hfloats hoperands]
  | compare op left right, room, hfloats, ⟨h0, h1, hleft, hright⟩ => by
    obtain ⟨hfloatsLeft, hfloatsRight⟩ := List.forall_mem_append.1 hfloats
    have hfields := compareOf?_record op (ofTree?_toTree left hfloatsLeft hleft)
      (ofTree?_toTree right hfloatsRight hright)
    unfold toTree ofTree?
    simp only [record_singleton, record_triple, decode?_key "compare" (by decide), if_neg h0,
      if_neg h1, hfields]
termination_by structural e => e

theorem ofItems?_toTrees : ∀ (es : List Expr) {room : Nat},
    (∀ x ∈ floatsOf es, x.isFinite = true ∧ x.ReadsBack) → AllFit es room →
      ofItems? room (toTrees es) = some es
  | [], _, _, _ => rfl
  | e :: es, room, hfloats, ⟨he, hes⟩ => by
    obtain ⟨hfloat, hfloats⟩ := List.forall_mem_append.1 hfloats
    rw [toTrees, ofItems?, ofTree?_toTree e hfloat he, ofItems?_toTrees es hfloats hes]
termination_by structural es => es
end

/-! ## Texts -/

theorem readable_record {fields : List (String × Tree)}
    (h : ∀ field ∈ fields, field.1 ∈ keys ∧ field.2.Readable) : (Tree.record fields).Readable := by
  rw [Tree.record, Tree.Readable]
  induction fields with
  | nil => trivial
  | cons field fields ih =>
    obtain ⟨⟨hkey, hvalue⟩, hfields⟩ := List.forall_mem_cons.1 h
    exact ⟨isSome_pieces?_key _ hkey, hvalue, ih hfields⟩

theorem readable_ofText (s : String) : (Tree.ofText s).Readable :=
  Json.isSome_pieces?_encode s.toList

mutual
theorem readable_toTree : ∀ e : Expr, (∀ x ∈ e.floats, x.isFinite = true ∧ x.ReadsBack) →
    e.toTree.Readable
  | const _, h => readable_record (by simp [keys, (Literal.ofTree?_toTree h).1])
  | root, _ => readable_ofText _
  | source, _ => readable_ofText _
  | var _, _ => readable_record (by simp [keys, readable_ofText])
  | property _, _ => readable_record (by simp [keys, readable_ofText])
  | index key, h => readable_record (by simp [keys, readable_toTree key h])
  | subscript _, _ => readable_record (by simp [keys, readable_ofText])
  | method name args, h => by
    have hargs : (Tree.array (toTrees args)).Readable := readable_toTrees args h
    have hfields : ∀ field ∈ [("name", Tree.ofText name), ("args", .array (toTrees args))],
        field.1 ∈ keys ∧ field.2.Readable := by
      simp [keys, readable_ofText, hargs]
    exact readable_record (by simp [keys, readable_record hfields])
  | chain links, h => by
    have hlinks : (Tree.array (toTrees links)).Readable := readable_toTrees links h
    exact readable_record (by simp [keys, hlinks])
  | not operand, h => readable_record (by simp [keys, readable_toTree operand h])
  | logical op operands, h => by
    have hoperands : (Tree.array (toTrees operands)).Readable := readable_toTrees operands h
    have hfields : ∀ field ∈ [("op", Tree.ofText op.word), ("operands", .array (toTrees operands))],
        field.1 ∈ keys ∧ field.2.Readable := by
      simp [keys, readable_ofText, hoperands]
    exact readable_record (by simp [keys, readable_record hfields])
  | compare op left right, h => by
    obtain ⟨hleft, hright⟩ := List.forall_mem_append.1 h
    have hfields : ∀ field ∈ [("op", Tree.ofText op.word), ("left", left.toTree),
        ("right", right.toTree)], field.1 ∈ keys ∧ field.2.Readable := by
      simp [keys, readable_ofText, readable_toTree left hleft, readable_toTree right hright]
    exact readable_record (by simp [keys, readable_record hfields])
termination_by structural e => e

theorem readable_toTrees : ∀ es : List Expr,
    (∀ x ∈ floatsOf es, x.isFinite = true ∧ x.ReadsBack) → Tree.ReadableItems (toTrees es)
  | [], _ => trivial
  | e :: es, h => by
    obtain ⟨he, hes⟩ := List.forall_mem_append.1 h
    exact ⟨readable_toTree e he, readable_toTrees es hes⟩
termination_by structural es => es
end

/-- An expression is read back from the text that is written for it. -/
theorem read?_json {e : Expr} (hfloats : ∀ x ∈ e.floats, x.isFinite = true ∧ x.ReadsBack)
    (hfits : e.Fits Json.maxDepth) : read? e.json = some e := by
  rw [read?, json, Tree.read?_compact (readable_toTree e hfloats), Option.bind_some,
    ofTree?_toTree e hfloats hfits]

end Expr
end ObjectGraph
