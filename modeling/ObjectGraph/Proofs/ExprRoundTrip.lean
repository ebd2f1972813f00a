import ObjectGraph.Proofs.ExprJson

/-!
# Expressions and other JSON

An expression may be read from JSON that is not what is written for it: with fields in another order
or in an array, with fields that nobody reads, with an object for a form without content. What is
written for it is not deeper than what it was read from. So it is read again.
-/
namespace ObjectGraph

open Json (Tree Members)

namespace Expr

/-! ## Room -/

theorem fits_of_plain? {s : String} {e : Expr} {room : Nat} (h : plain? s = some e) :
    e.Fits room := by
  unfold plain? at h
  split at h
  · cases h
    trivial
  · cases h
    trivial
  · cases h

mutual
/-- What is read fits the room it is read with. -/
theorem fits_of_ofTree? : ∀ (tree : Tree) {room : Nat} {e : Expr},
    ofTree? room tree = some e → e.Fits room
  | .string body, _, _, h => by
    obtain ⟨s, -, hs⟩ := Option.bind_eq_some_iff.1 h
    exact fits_of_plain? hs
  | .object (.cons key value .nil), room, e, h => by
    by_cases hmethod : Json.decode? key = some "method"
    · exact fits_of_method value hmethod h
    by_cases hlogical : Json.decode? key = some "logical"
    · exact fits_of_logical value hlogical h
    by_cases hcompare : Json.decode? key = some "compare"
    · exact fits_of_compare value hcompare h
    unfold ofTree? at h
    dsimp only at h
    split at h
    · cases h
    next h0 =>
    split at h
    -- the forms without content
    case h_1 | h_2 =>
      split at h
      · cases h
        trivial
      · cases h
    -- a literal, a name or a subscript
    case h_3 | h_4 | h_5 | h_7 =>
      obtain ⟨_, -, rfl⟩ := Option.map_eq_some_iff.1 h
      exact h0
    -- a key or an operand
    case h_6 | h_9 =>
      obtain ⟨operand, hoperand, rfl⟩ := Option.map_eq_some_iff.1 h
      exact ⟨h0, fits_of_ofTree? value hoperand⟩
    -- the links of a chain
    case h_8 =>
      obtain ⟨links, hlinks, rfl⟩ := Option.map_eq_some_iff.1 h
      exact ⟨h0, allFit_of_ofList? value hlinks⟩
    case h_10 | h_11 | h_12 => contradiction
    case h_13 => cases h
  | .null, _, _, h => nomatch h
  | .boolean _, _, _, h => nomatch h
  | .numeral _, _, _, h => nomatch h
  | .array _, _, _, h => nomatch h
  | .object .nil, _, _, h => nomatch h
  | .object (.cons _ _ (.cons _ _ _)), _, _, h => nomatch h
termination_by tree => sizeOf tree

theorem fits_of_method : ∀ (value : Tree) {key : List Char} {room : Nat} {e : Expr},
    Json.decode? key = some "method" → ofTree? room (.object (.cons key value .nil)) = some e →
      e.Fits room
  | value, key, room, e, hkey, h => by
    unfold ofTree? at h
    simp only [hkey] at h
    split at h
    · cases h
    next h0 =>
    split at h
    · next name args =>
      split at h
      · cases h
      next h1 =>
      split at h
      · next hargs =>
        cases h
        exact ⟨h0, h1, allFit_of_ofList? args hargs⟩
      · cases h
    · next members =>
      split at h
      · cases h
      next h1 =>
      obtain ⟨_, _, rfl, hargs⟩ := fits_of_methodOf? members h nofun
      exact ⟨h0, h1, hargs⟩
    · cases h
termination_by value => sizeOf value

theorem fits_of_logical : ∀ (value : Tree) {key : List Char} {room : Nat} {e : Expr},
    Json.decode? key = some "logical" → ofTree? room (.object (.cons key value .nil)) = some e →
      e.Fits room
  | value, key, room, e, hkey, h => by
    unfold ofTree? at h
    simp only [hkey] at h
    split at h
    · cases h
    next h0 =>
    split at h
    · next op operands =>
      split at h
      · cases h
      next h1 =>
      split at h
      · next hoperands =>
        cases h
        exact ⟨h0, h1, allFit_of_ofList? operands hoperands⟩
      · cases h
    · next members =>
      split at h
      · cases h
      next h1 =>
      obtain ⟨_, _, rfl, hoperands⟩ := fits_of_logicalOf? members h nofun
      exact ⟨h0, h1, hoperands⟩
    · cases h
termination_by value => sizeOf value

theorem fits_of_compare : ∀ (value : Tree) {key : List Char} {room : Nat} {e : Expr},
    Json.decode? key = some "compare" → ofTree? room (.object (.cons key value .nil)) = some e →
      e.Fits room
  | value, key, room, e, hkey, h => by
    unfold ofTree? at h
    simp only [hkey] at h
    split at h
    · cases h
    next h0 =>
    split at h
    · next op left right =>
      split at h
      · cases h
      next h1 =>
      split at h
      · next hleft hright =>
        cases h
        exact ⟨h0, h1, fits_of_ofTree? left hleft, fits_of_ofTree? right hright⟩
      · cases h
    · next members =>
      split at h
      · cases h
      next h1 =>
      obtain ⟨_, _, _, rfl, hleft, hright⟩ := fits_of_compareOf? members h nofun nofun
      exact ⟨h0, h1, hleft, hright⟩
    · cases h
termination_by value => sizeOf value

theorem allFit_of_ofList? : ∀ (tree : Tree) {room : Nat} {es : List Expr},
    ofList? room tree = some es → room ≠ 0 ∧ AllFit es (room - 1)
  | .array items, room, es, h => by
    unfold ofList? at h
    split at h
    · cases h
    · next h0 => exact ⟨h0, allFit_of_ofItems? items h⟩
  | .null, _, _, h => nomatch h
  | .boolean _, _, _, h => nomatch h
  | .numeral _, _, _, h => nomatch h
  | .string _, _, _, h => nomatch h
  | .object _, _, _, h => nomatch h
termination_by tree => sizeOf tree

theorem allFit_of_ofItems? : ∀ (items : List Tree) {room : Nat} {es : List Expr},
    ofItems? room items = some es → AllFit es room
  | [], _, _, h => by
    cases h
    trivial
  | item :: items, room, es, h => by
    unfold ofItems? at h
    split at h
    · next e es he hes =>
      cases h
      exact ⟨fits_of_ofTree? item he, allFit_of_ofItems? items hes⟩
    · cases h
termination_by items => sizeOf items

/-- The fields of a method, of which the arguments may have been read. -/
theorem fits_of_methodOf? : ∀ (members : Members Tree) {room : Nat} {name : Option String}
    {args : Option (List Expr)} {e : Expr}, methodOf? room members name args = some e →
      (∀ es ∈ args, room ≠ 0 ∧ AllFit es (room - 1)) →
        ∃ name es, e = method name es ∧ room ≠ 0 ∧ AllFit es (room - 1)
  | .nil, _, some name, some args, _, h, hargs => by
    cases h
    exact ⟨name, args, rfl, hargs args rfl⟩
  | .nil, _, some _, none, _, h, _ => nomatch h
  | .nil, _, none, _, _, h, _ => nomatch h
  | .cons key value rest, _, _, _, _, h, hargs => by
    unfold methodOf? at h
    split at h
    · cases h
    · split at h
      · exact fits_of_methodOf? rest h hargs
      · cases h
    · split at h
      · next hes =>
        refine fits_of_methodOf? rest h ?_
        rintro _ ⟨⟩
        exact allFit_of_ofList? value hes
      · cases h
    · exact fits_of_methodOf? rest h hargs
termination_by members => sizeOf members

theorem fits_of_logicalOf? : ∀ (members : Members Tree) {room : Nat} {op : Option Connective}
    {operands : Option (List Expr)} {e : Expr}, logicalOf? room members op operands = some e →
      (∀ es ∈ operands, room ≠ 0 ∧ AllFit es (room - 1)) →
        ∃ op es, e = logical op es ∧ room ≠ 0 ∧ AllFit es (room - 1)
  | .nil, _, some op, some operands, _, h, hoperands => by
    cases h
    exact ⟨op, operands, rfl, hoperands operands rfl⟩
  | .nil, _, some _, none, _, h, _ => nomatch h
  | .nil, _, none, _, _, h, _ => nomatch h
  | .cons key value rest, _, _, _, _, h, hoperands => by
    unfold logicalOf? at h
    split at h
    · cases h
    · split at h
      · exact fits_of_logicalOf? rest h hoperands
      · cases h
    · split at h
      · next hes =>
        refine fits_of_logicalOf? rest h ?_
        rintro _ ⟨⟩
        exact allFit_of_ofList? value hes
      · cases h
    · exact fits_of_logicalOf? rest h hoperands
termination_by members => sizeOf members

/-- The fields of a comparison, of which some may have been read. -/
theorem fits_of_compareOf? : ∀ (members : Members Tree) {room : Nat} {op : Option Comparison}
    {left right : Option Expr} {e : Expr}, compareOf? room members op left right = some e →
      (∀ l ∈ left, l.Fits room) → (∀ r ∈ right, r.Fits room) →
        ∃ op l r, e = compare op l r ∧ l.Fits room ∧ r.Fits room
  | .nil, _, some op, some left, some right, _, h, hleft, hright => by
    cases h
    exact ⟨op, left, right, rfl, hleft left rfl, hright right rfl⟩
  | .nil, _, some _, some _, none, _, h, _, _ => nomatch h
  | .nil, _, some _, none, _, _, h, _, _ => nomatch h
  | .nil, _, none, _, _, _, h, _, _ => nomatch h
  | .cons key value rest, _, _, _, _, _, h, hleft, hright => by
    unfold compareOf? at h
    split at h
    · cases h
    · split at h
      · exact fits_of_compareOf? rest h hleft hright
      · cases h
    · split at h
      · next hl =>
        refine fits_of_compareOf? rest h ?_ hright
        rintro _ ⟨⟩
        exact fits_of_ofTree? value hl
      · cases h
    · split at h
      · next hr =>
        refine fits_of_compareOf? rest h hleft ?_
        rintro _ ⟨⟩
        exact fits_of_ofTree? value hr
      · cases h
    · exact fits_of_compareOf? rest h hleft hright
termination_by members => sizeOf members
end

/-! ## Equality -/

mutual
theorem same_self : ∀ e : Expr, (∀ x ∈ e.floats, x.isFinite = true) → e.same e = true
  | const literal, h => literal.same_self h
  | root, _ => rfl
  | source, _ => rfl
  | var _, _ => by simp [same]
  | property _, _ => by simp [same]
  | index key, h => same_self key h
  | subscript _, _ => by simp [same]
  | method _ args, h => by simp [same, sameAll_self args h]
  | chain links, h => sameAll_self links h
  | not operand, h => same_self operand h
  | logical _ operands, h => by simp [same, sameAll_self operands h]
  | compare _ left right, h => by
    obtain ⟨hleft, hright⟩ := List.forall_mem_append.1 h
    simp [same, same_self left hleft, same_self right hright]
termination_by structural e => e

theorem sameAll_self : ∀ es : List Expr, (∀ x ∈ floatsOf es, x.isFinite = true) →
    sameAll es es = true
  | [], _ => rfl
  | e :: es, h => by
    obtain ⟨he, hes⟩ := List.forall_mem_append.1 h
    rw [sameAll, same_self e he, sameAll_self es hes, Bool.and_self]
termination_by structural es => es
end

end Expr

/-- The JSON that is written for an expression is read as that expression, if its doubles are finite
and read back from their text and the JSON nests no deeper than is read. And it is so for every
expression that has been read from any text, in whatever form, if its doubles are. -/
theorem expression_read_back_from_json :
    (∀ e : Expr, (∀ x ∈ e.floats, x.isFinite = true ∧ x.ReadsBack) →
      e.toTree.depth ≤ Json.maxDepth → Expr.read? e.json = some e ∧ e.same e = true) ∧
    ∀ (text : String) (e : Expr), Expr.read? text = some e →
      (∀ x ∈ e.floats, x.isFinite = true ∧ x.ReadsBack) → Expr.read? e.json = some e := by
  constructor
  · intro e hfloats hdepth
    exact ⟨e.read?_json hfloats (e.depth_toTree_le.1 hdepth),
      e.same_self fun x hx => (hfloats x hx).1⟩
  · intro text e hread hfloats
    obtain ⟨tree, -, htree⟩ := Option.bind_eq_some_iff.1 hread
    exact e.read?_json hfloats (e.fits_of_ofTree? tree htree)

/-- An integer beside a double of the same value, after a string that needs escapes. -/
def Expr.oneBesideOne : Expr :=
  .logical .or [.const (.string "\"\n\x01é"),
    .compare .notEqual (.const (.integer 1)) (.const (.float ⟨0x3ff0000000000000⟩))]

theorem expression_read_back_from_json_of_mixed_kinds :
    Expr.read? Expr.oneBesideOne.json = some Expr.oneBesideOne ∧
    Expr.oneBesideOne.same Expr.oneBesideOne = true ∧
    Expr.read? (Expr.not .root).json = some (.not .root) := by
  obtain ⟨hwritten, hread⟩ := expression_read_back_from_json
  have hfloats : ∀ x ∈ Expr.oneBesideOne.floats, x.isFinite = true ∧ x.ReadsBack := by
    decide +kernel
  have hdepth : Expr.oneBesideOne.toTree.depth ≤ Json.maxDepth := by decide +kernel
  have hother : Expr.read? "\x7b\"n\\u006ft\" : \x7b\"root\":null\x7d \x7d" =
      some (.not .root) := by rfl
  obtain ⟨hsame, hequal⟩ := hwritten _ hfloats hdepth
  exact ⟨hsame, hequal, hread _ _ hother (by simp [Expr.floats])⟩

end ObjectGraph
