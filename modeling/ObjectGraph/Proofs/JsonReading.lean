import ObjectGraph.Proofs.NumeralText

/-!
# Reading compact JSON

The reader takes the compact text of a tree to the reader that has accepted the tree, save for a
word or numeral at its end: that is accepted with the next character or at the end of the text.
-/
namespace ObjectGraph.Json

mutual
/-- Every numeral and every string body in the tree is well formed. -/
def Tree.Readable : Tree → Prop
  | .null => True
  | .boolean _ => True
  | .numeral chars => (Numeral.ofChars? chars).isSome
  | .string body => (pieces? body).isSome
  | .array items => ReadableItems items
  | .object members => ReadableMembers members
termination_by structural tree => tree

def Tree.ReadableItems : List Tree → Prop
  | [] => True
  | item :: items => item.Readable ∧ ReadableItems items
termination_by structural items => items

def Tree.ReadableMembers : Members Tree → Prop
  | .nil => True
  | .cons key value rest => (pieces? key).isSome ∧ value.Readable ∧ ReadableMembers rest
termination_by structural members => members
end

theorem exists_of_unit? {a b c d : Char} {n : Nat} (h : unit? a b c d = some n) :
    ∃ i j k l, hexValue? a = some i ∧ hexValue? b = some j ∧ hexValue? c = some k ∧
      hexValue? d = some l := by
  unfold unit? at h
  split at h
  · next i j k l ha hb hc hd => exact ⟨i, j, k, l, ha, hb, hc, hd⟩
  · cases h

@[simp] theorem Members.ofList_toList {α : Type} (members : Members α) :
    Members.ofList members.toList = members := by
  induction members with
  | nil => rfl
  | cons key value rest ih => rw [toList, ofList, ih]

namespace Reader

/-! ## Steps -/

@[simp] theorem run_nil (r : Reader) : r.run [] = some r := rfl

@[simp] theorem run_cons (r : Reader) (c : Char) (cs : List Char) :
    r.run (c :: cs) = (r.feed c).bind fun r => r.run cs := by
  simp [run, List.foldlM_cons]

/-- A value may come next. -/
theorem accept_eq_some {r q : Reader} {tree : Tree} (h : r.accept tree = some q) :
    (r.phase = .value ∨ r.phase = .valueOrClose) ∧
      accept ⟨r.stack, .value, .between⟩ tree = some q := by
  obtain ⟨stack, phase, mode⟩ := r
  cases phase with
  | value => exact ⟨.inl rfl, h⟩
  | valueOrClose =>
    match stack, h with
    | .array items :: rest, h => exact ⟨.inr rfl, h⟩
  | _ => simp [accept] at h

/-- A word or numeral ends where something else begins. -/
theorem feed_of_settle {r q : Reader} (h : r.settle = some q) {c : Char}
    (hlower : c.isLower = false) (hnumeral : isNumeralChar c = false) :
    r.feed c = q.punctuate c := by
  unfold feed
  cases hmode : r.mode with
  | between =>
    rw [settle, hmode, Option.some.injEq] at h
    rw [h]
  | word letters => simp [hlower, h]
  | numeral chars => simp [hnumeral, h]
  | string body => rw [settle, hmode] at h; cases h
  | escape body => rw [settle, hmode] at h; cases h

variable {stack : List Frame} {phase : Phase}

/-! ## Numerals and strings -/

theorem run_numeralChars : ∀ {rest : List Char} (chars : List Char),
    (∀ c ∈ rest, isNumeralChar c) → (⟨stack, phase, .numeral chars⟩ : Reader).run rest =
      some ⟨stack, phase, .numeral (rest.reverse ++ chars)⟩
  | [], _, _ => rfl
  | c :: rest, chars, h => by
    obtain ⟨hc, hrest⟩ := List.forall_mem_cons.1 h
    have hfeed : (⟨stack, phase, .numeral chars⟩ : Reader).feed c =
        some ⟨stack, phase, .numeral (c :: chars)⟩ := if_pos hc
    rw [run_cons, hfeed, Option.bind_some, run_numeralChars (c :: chars) hrest]
    simp

theorem isLower_eq_false_of_isDigit {c : Char} (h : c.isDigit) : c.isLower = false := by
  have hdigit : c.val ≤ '9'.val := by simpa using (Bool.and_eq_true_iff.1 h).2
  refine Bool.eq_false_iff.2 fun hlower => ?_
  have hletter : 'a'.val ≤ c.val := by simpa using (Bool.and_eq_true_iff.1 hlower).1
  exact absurd (UInt32.le_trans hletter hdigit) (by decide)

/-- A sign or a digit begins a numeral. -/
theorem punctuate_numeral (r : Reader) {c : Char} (h : c = '-' ∨ c.isDigit) :
    r.punctuate c = some { r with mode := .numeral [c] } := by
  rcases h with rfl | h
  · rfl
  · have hne : ∀ d : Char, d.isDigit = false → c ≠ d := by
      rintro d hd rfl
      rw [h] at hd
      cases hd
    simp [punctuate, isSpace, hne, isLower_eq_false_of_isDigit h,
      Numeral.isNumeralChar_of_isDigit h]

theorem run_numeral {chars : List Char} (h : (Numeral.ofChars? chars).isSome) :
    (⟨stack, phase, .between⟩ : Reader).run chars =
      some ⟨stack, phase, .numeral chars.reverse⟩ := by
  obtain ⟨n, hn⟩ := Option.isSome_iff_exists.1 h
  obtain ⟨c, cs, rfl, hfirst, hothers⟩ := Numeral.exists_first_of_ofChars? hn
  rw [run_cons, feed, punctuate_numeral _ hfirst, Option.bind_some, run_numeralChars [c] hothers]
  simp

theorem feed_ordinary {c : Char} (hquote : c ≠ '"') (hslash : c ≠ '\\') (body : List Char) :
    (⟨stack, phase, .string body⟩ : Reader).feed c = some ⟨stack, phase, .string (c :: body)⟩ := by
  simp [feed, hquote, hslash]

theorem run_escape (letter : Char) (rest body : List Char) :
    (⟨stack, phase, .string body⟩ : Reader).run ('\\' :: letter :: rest) =
      (⟨stack, phase, .string (letter :: '\\' :: body)⟩ : Reader).run rest := by
  simp [feed]

theorem feed_hexDigit {c : Char} {n : Nat} (h : hexValue? c = some n) (body : List Char) :
    (⟨stack, phase, .string body⟩ : Reader).feed c =
      some ⟨stack, phase, .string (c :: body)⟩ := by
  refine feed_ordinary ?_ ?_ body
  all_goals
    rintro rfl
    cases h

/-- The quotes and backslashes of a well-formed body are in escapes. -/
theorem run_body (body : List Char) (h : (pieces? body).isSome) (before : List Char) :
    (⟨stack, phase, .string before⟩ : Reader).run body =
      some ⟨stack, phase, .string (body.reverse ++ before)⟩ := by
  fun_induction pieces? body generalizing before with
  | case1 => rfl
  | case2 a b c d rest n tail hrest hunit ih =>
    obtain ⟨_, _, _, _, ha, hb, hc, hd⟩ := exists_of_unit? hunit
    rw [run_escape, run_cons, feed_hexDigit ha, Option.bind_some, run_cons, feed_hexDigit hb,
      Option.bind_some, run_cons, feed_hexDigit hc, Option.bind_some, run_cons,
      feed_hexDigit hd, Option.bind_some, ih (by rw [hrest]; rfl)]
    simp
  | case5 letter rest _ c tail hrest hletter ih =>
    rw [run_escape, ih (by rw [hrest]; rfl)]
    simp
  | case8 c rest _ hlast hmore hordinary ih =>
    have hslash : c ≠ '\\' := by
      rintro rfl
      cases rest with
      | nil => exact hlast rfl rfl
      | cons letter rest => exact hmore letter rest rfl rfl
    rw [run_cons, feed_ordinary (fun hquote => hordinary (.inr hquote)) hslash,
      Option.bind_some, ih (by simpa using h)]
    simp
  | case3 | case4 | case6 | case7 => cases h

theorem run_quoted {body : List Char} (h : (pieces? body).isSome) :
    (⟨stack, phase, .between⟩ : Reader).run (Tree.quoted body).toList =
      acceptString ⟨stack, phase, .between⟩ body := by
  have hopen : (⟨stack, phase, .between⟩ : Reader).feed '"' =
      some ⟨stack, phase, .string []⟩ := rfl
  have hclose : (⟨stack, phase, .string body.reverse⟩ : Reader).feed '"' =
      acceptString ⟨stack, phase, .between⟩ body := by
    simp [feed]
  have htext : (Tree.quoted body).toList = '"' :: (body ++ ['"']) := by
    simp [Tree.quoted]
  rw [htext, run_cons, hopen, Option.bind_some, run_append, run_body body h, Option.bind_some,
    List.append_nil, run_cons, hclose]
  simp

theorem acceptString_of_accept {body : List Char} {q : Reader} (h : (pieces? body).isSome)
    (hq : accept ⟨stack, phase, .between⟩ (.string body) = some q) :
    acceptString ⟨stack, phase, .between⟩ body = some q := by
  have hbody : ¬ (pieces? body).isNone := by simp [Option.isSome_iff_ne_none.1 h]
  rw [acceptString, if_neg hbody]
  rcases (accept_eq_some hq).1 with hphase | hphase
  all_goals
    cases hphase
    exact hq

/-- A key waits for its colon. -/
theorem acceptString_key {members : List (List Char × Tree)} {body : List Char}
    (h : (pieces? body).isSome) (hphase : phase = .key ∨ phase = .keyOrClose) :
    acceptString ⟨.object members :: stack, phase, .between⟩ body =
      some ⟨.member members body :: stack, .colon, .between⟩ := by
  have hbody : ¬ (pieces? body).isNone := by simp [Option.isSome_iff_ne_none.1 h]
  rw [acceptString, if_neg hbody]
  rcases hphase with rfl | rfl <;> rfl

/-! ## Trees -/

/-- The text takes the first reader to the second, once a word or numeral at its end is over. -/
def Takes (r : Reader) (text : List Char) (q : Reader) : Prop :=
  ∃ r', r.run text = some r' ∧ r'.settle = some q

theorem settle_of_accept {r q : Reader} {tree : Tree} (h : r.accept tree = some q) :
    q.settle = some q := by
  unfold accept at h
  split at h
  all_goals
    cases h
    try rfl

/-- The character after the text is the first that the second reader gets. -/
theorem Takes.run_append {r q : Reader} {text : List Char} (h : r.Takes text q) {c : Char}
    (hlower : c.isLower = false) (hnumeral : isNumeralChar c = false) (rest : List Char) :
    r.run (text ++ c :: rest) = (q.punctuate c).bind fun r => r.run rest := by
  obtain ⟨r', hrun, hsettle⟩ := h
  rw [Reader.run_append, hrun, Option.bind_some, run_cons, feed_of_settle hsettle hlower hnumeral]

theorem punctuate_closeArray {items : List Tree}
    (h : phase = .commaOrClose ∨ phase = .valueOrClose) :
    punctuate ⟨.array items :: stack, phase, .between⟩ ']' =
      accept ⟨stack, .value, .between⟩ (.array items.reverse) := by
  rcases h with rfl | rfl <;> rfl

theorem punctuate_closeObject {members : List (List Char × Tree)}
    (h : phase = .commaOrClose ∨ phase = .keyOrClose) :
    punctuate ⟨.object members :: stack, phase, .between⟩ '\x7d' =
      accept ⟨stack, .value, .between⟩ (.object (Members.ofList members.reverse)) := by
  rcases h with rfl | rfl <;> rfl

/-- What an opening bracket leads to. -/
theorem run_opening {tree : Tree} {q : Reader} (h : accept ⟨stack, phase, .between⟩ tree = some q)
    (text : List Char) :
    run ⟨stack, phase, .between⟩ ('[' :: text) =
      run ⟨.array [] :: stack, .valueOrClose, .between⟩ text ∧
    run ⟨stack, phase, .between⟩ ('\x7b' :: text) =
      run ⟨.object [] :: stack, .keyOrClose, .between⟩ text := by
  rcases (accept_eq_some h).1 with hphase | hphase
  all_goals
    cases hphase
    exact ⟨by rw [run_cons]; rfl, by rw [run_cons]; rfl⟩

/-- An item may come first or after a comma. -/
theorem accept_item (h : phase = .value ∨ phase = .valueOrClose) (items : List Tree)
    (item : Tree) : accept ⟨.array items :: stack, phase, .between⟩ item =
      some ⟨.array (item :: items) :: stack, .commaOrClose, .between⟩ := by
  rcases h with rfl | rfl <;> rfl

/-- A key is taken in together with its colon. -/
theorem run_key {key : List Char} (h : (pieces? key).isSome)
    (hphase : phase = .key ∨ phase = .keyOrClose) (before : List (List Char × Tree))
    (text : List Char) :
    run ⟨.object before :: stack, phase, .between⟩ ((Tree.quoted key).toList ++ ':' :: text) =
      run ⟨.member before key :: stack, .value, .between⟩ text := by
  rw [run_append, run_quoted h, acceptString_key h hphase, Option.bind_some, run_cons]
  rfl

theorem takes_member {key : List Char} {value : Tree} {before : List (List Char × Tree)}
    {q : Reader} (hkey : (pieces? key).isSome) (hphase : phase = .key ∨ phase = .keyOrClose)
    (hvalue : Takes ⟨.member before key :: stack, .value, .between⟩ value.compact.toList q) :
    Takes ⟨.object before :: stack, phase, .between⟩
      (Tree.quoted key ++ ":" ++ value.compact).toList q := by
  obtain ⟨r', hrun, hsettle⟩ := hvalue
  refine ⟨r', ?_, hsettle⟩
  have htext : (Tree.quoted key ++ ":" ++ value.compact).toList =
      (Tree.quoted key).toList ++ ':' :: value.compact.toList := by
    simp
  rw [htext, run_key hkey hphase, hrun]

/-- Part by part, with a comma after each but the last. -/
theorem takes_joined {r q q' q'' : Reader} {part next : String} {rest : List String}
    (hpart : r.Takes part.toList q) (hcomma : q.punctuate ',' = some q')
    (hrest : q'.Takes (Text.joined "," (next :: rest)).toList q'') :
    r.Takes (Text.joined "," (part :: next :: rest)).toList q'' := by
  obtain ⟨r', hrun, hsettle⟩ := hrest
  refine ⟨r', ?_, hsettle⟩
  have htext : (Text.joined "," (part :: next :: rest)).toList =
      part.toList ++ ',' :: (Text.joined "," (next :: rest)).toList := by
    simp
  rw [htext, hpart.run_append rfl rfl, hcomma, Option.bind_some, hrun]

mutual
/-- The text of a tree takes the reader to the one that has accepted the tree. -/
theorem takes_compact : ∀ (tree : Tree), tree.Readable → ∀ {stack : List Frame} {phase : Phase}
    {q : Reader}, accept ⟨stack, phase, .between⟩ tree = some q →
      Takes ⟨stack, phase, .between⟩ tree.compact.toList q
  | .null, _, stack, phase, _, hq => ⟨⟨stack, phase, .word ['l', 'l', 'u', 'n']⟩, rfl, hq⟩
  | .boolean true, _, stack, phase, _, hq => ⟨⟨stack, phase, .word ['e', 'u', 'r', 't']⟩, rfl, hq⟩
  | .boolean false, _, stack, phase, _, hq =>
    ⟨⟨stack, phase, .word ['e', 's', 'l', 'a', 'f']⟩, rfl, hq⟩
  | .numeral chars, h, stack, phase, _, hq => by
    refine ⟨⟨stack, phase, .numeral chars.reverse⟩, ?_, ?_⟩
    · rw [Tree.compact, String.toList_ofList]
      exact run_numeral h
    · rw [Tree.Readable] at h
      simp only [settle, List.reverse_reverse, h, if_true]
      exact hq
  | .string _, h, _, _, q, hq =>
    ⟨q, (run_quoted h).trans (acceptString_of_accept h hq), settle_of_accept hq⟩
  | .array items, h, stack, phase, q, hq => by
    refine ⟨q, ?_, settle_of_accept hq⟩
    have htext : (Tree.array items).compact.toList =
        '[' :: ((Text.joined "," (Tree.compactItems items)).toList ++ [']']) := by
      simp [Tree.compact]
    have hclose : accept ⟨stack, .value, .between⟩ (.array items) = some q := (accept_eq_some hq).2
    rw [htext, (run_opening hq _).1]
    by_cases hitems : items = []
    · subst hitems
      change (punctuate _ ']').bind _ = _
      rw [punctuate_closeArray (.inr rfl)]
      simpa using hclose
    · rw [(takes_compactItems items hitems h (.inr rfl)).run_append rfl rfl,
        punctuate_closeArray (.inl rfl)]
      simpa using hclose
  | .object members, h, stack, phase, q, hq => by
    refine ⟨q, ?_, settle_of_accept hq⟩
    have htext : (Tree.object members).compact.toList =
        '\x7b' :: ((Text.joined "," (Tree.compactMembers members)).toList ++ ['\x7d']) := by
      simp [Tree.compact]
    have hclose : accept ⟨stack, .value, .between⟩ (.object members) = some q :=
      (accept_eq_some hq).2
    rw [htext, (run_opening hq _).2]
    by_cases hmembers : members = .nil
    · subst hmembers
      change (punctuate _ '\x7d').bind _ = _
      rw [punctuate_closeObject (.inr rfl), List.reverse_nil, Members.ofList, hclose]
      rfl
    · rw [(takes_compactMembers members hmembers h (.inr rfl)).run_append rfl rfl,
        punctuate_closeObject (.inl rfl)]
      simpa using hclose
termination_by structural tree => tree

/-- The items of an array that has begun. -/
theorem takes_compactItems : ∀ (items : List Tree), items ≠ [] → Tree.ReadableItems items →
    ∀ {stack : List Frame} {phase : Phase} {before : List Tree},
      phase = .value ∨ phase = .valueOrClose →
        Takes ⟨.array before :: stack, phase, .between⟩
          (Text.joined "," (Tree.compactItems items)).toList
          ⟨.array (items.reverse ++ before) :: stack, .commaOrClose, .between⟩
  | [], hne, _, _, _, _, _ => absurd rfl hne
  | [item], _, h, _, _, before, hphase => takes_compact item h.1 (accept_item hphase before item)
  | item :: next :: items, _, h, stack, phase, before, hphase => by
    have hitem : Takes ⟨.array before :: stack, phase, .between⟩ _ _ :=
      takes_compact item h.1 (accept_item hphase before item)
    have hitems : Takes ⟨.array (item :: before) :: stack, .value, .between⟩ _ _ :=
      takes_compactItems (next :: items) nofun h.2 (.inl rfl)
    rw [List.reverse_cons, List.append_assoc]
    exact takes_joined hitem rfl hitems
termination_by structural items => items

/-- The members of an object that has begun. -/
theorem takes_compactMembers : ∀ (members : Members Tree), members ≠ .nil →
    Tree.ReadableMembers members → ∀ {stack : List Frame} {phase : Phase}
      {before : List (List Char × Tree)}, phase = .key ∨ phase = .keyOrClose →
        Takes ⟨.object before :: stack, phase, .between⟩
          (Text.joined "," (Tree.compactMembers members)).toList
          ⟨.object (members.toList.reverse ++ before) :: stack, .commaOrClose, .between⟩
  | .nil, hne, _, _, _, _, _ => absurd rfl hne
  | .cons _ value .nil, _, h, _, _, _, hphase =>
    takes_member h.1 hphase (takes_compact value h.2.1 rfl)
  | .cons key value (.cons next other rest), _, h, stack, phase, before, hphase => by
    have hmember : Takes ⟨.object before :: stack, phase, .between⟩ _
        ⟨.object ((key, value) :: before) :: stack, .commaOrClose, .between⟩ :=
      takes_member h.1 hphase (takes_compact value h.2.1 rfl)
    have hmembers : Takes ⟨.object ((key, value) :: before) :: stack, .key, .between⟩ _ _ :=
      takes_compactMembers (.cons next other rest) nofun h.2.2 (.inl rfl)
    rw [Members.toList, List.reverse_cons, List.append_assoc]
    exact takes_joined hmember rfl hmembers
termination_by structural members => members
end

end Reader

/-- The compact text of a tree is read as that tree. -/
theorem Tree.read?_compact {tree : Tree} (h : tree.Readable) :
    Tree.read? tree.compact = some tree := by
  have haccept : Reader.start.accept tree = some ⟨[], .finished tree, .between⟩ := rfl
  obtain ⟨r', hrun, hsettle⟩ := Reader.takes_compact tree h haccept
  have hfinish : r'.finish = some tree := by
    rw [Reader.finish, hsettle]
    rfl
  change (Reader.start.run tree.compact.toList).bind Reader.finish = some tree
  rw [show Reader.start.run _ = _ from hrun, Option.bind_some, hfinish]

end ObjectGraph.Json
