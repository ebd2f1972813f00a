import ObjectGraph.Proofs.JsonReading

/-!
# Reading a text as the value of a member

What the reader makes of a text by itself it also makes of it as the value of a member. Step by step
its stack is the one it would have alone, on top of the open member, until the text alone is
finished: then the member is complete.
-/
namespace ObjectGraph.Json

namespace Reader

variable {members : List (List Char × Tree)} {key : List Char} {below : List Frame} {r q : Reader}

/-- The reader of a text by itself, on top of an open member. -/
def inMember (members : List (List Char × Tree)) (key : List Char) (below : List Frame)
    (r : Reader) : Reader :=
  match r.phase with
  | .finished tree => ⟨.object ((key, tree) :: members) :: below, .commaOrClose, r.mode⟩
  | phase => ⟨r.stack ++ .member members key :: below, phase, r.mode⟩

@[simp] theorem inMember_mode : (r.inMember members key below).mode = r.mode := by
  unfold inMember
  split <;> rfl

theorem inMember_withMode (mode : Mode) :
    ({ r with mode := mode } : Reader).inMember members key below =
      { r.inMember members key below with mode := mode } := by
  obtain ⟨stack, phase, _⟩ := r
  cases phase <;> rfl

/-! ## Steps -/

theorem accept_inMember {tree : Tree} (h : r.accept tree = some q) :
    (r.inMember members key below).accept tree = some (q.inMember members key below) := by
  obtain ⟨stack, phase, mode⟩ := r
  unfold accept at h
  split at h
  case h_5 => cases h
  all_goals
    next hphase hstack =>
    cases hphase
    cases hstack
    cases h
    rfl

theorem acceptString_inMember {body : List Char} (h : r.acceptString body = some q) :
    (r.inMember members key below).acceptString body = some (q.inMember members key below) := by
  obtain ⟨stack, phase, mode⟩ := r
  unfold acceptString at h ⊢
  split at h
  · cases h
  next hbody =>
  rw [if_neg hbody]
  split at h
  case h_3 =>
    rcases (accept_eq_some h).1 with hphase | hphase
    all_goals
      cases hphase
      exact accept_inMember h
  all_goals
    next hphase hstack =>
    cases hphase
    cases hstack
    cases h
    rfl

theorem settle_inMember (h : r.settle = some q) :
    (r.inMember members key below).settle = some (q.inMember members key below) := by
  unfold settle at h ⊢
  rw [inMember_mode]
  cases hmode : r.mode with
  | between =>
    rw [hmode] at h
    cases h
    rfl
  | word letters =>
    rw [hmode] at h
    obtain ⟨tree, htree, haccept⟩ := Option.bind_eq_some_iff.1 h
    exact Option.bind_eq_some_iff.2 ⟨tree, htree, accept_inMember haccept⟩
  | numeral chars =>
    rw [hmode] at h
    dsimp only at h ⊢
    split at h
    · next hchars =>
      rw [if_pos hchars]
      exact accept_inMember h
    · cases h
  | string body =>
    rw [hmode] at h
    cases h
  | escape body =>
    rw [hmode] at h
    cases h

theorem closeArray_inMember {bracket : Char} {items : List Tree} {rest : List Frame}
    (h : close.closeArray bracket items rest = some q) :
    close.closeArray bracket items (rest ++ .member members key :: below) =
      some (q.inMember members key below) := by
  unfold close.closeArray at h ⊢
  split_ifs at h ⊢
  exact accept_inMember h

theorem closeObject_inMember {bracket : Char} {inner : List (List Char × Tree)}
    {rest : List Frame} (h : close.closeObject bracket inner rest = some q) :
    close.closeObject bracket inner (rest ++ .member members key :: below) =
      some (q.inMember members key below) := by
  unfold close.closeObject at h ⊢
  split_ifs at h ⊢
  exact accept_inMember h

theorem close_inMember {bracket : Char} (h : r.close bracket = some q) :
    (r.inMember members key below).close bracket = some (q.inMember members key below) := by
  obtain ⟨stack, phase, mode⟩ := r
  unfold close at h
  split at h
  case h_5 => cases h
  all_goals
    next hphase hstack =>
    cases hphase
    cases hstack
    first | exact closeArray_inMember h | exact closeObject_inMember h

theorem opens_inMember {frame : Frame} {phase : Phase} (h : r.opens frame phase = some q)
    (hphase : phase = .valueOrClose ∨ phase = .keyOrClose) :
    (r.inMember members key below).opens frame phase = some (q.inMember members key below) := by
  obtain ⟨stack, before, mode⟩ := r
  unfold opens at h
  split at h
  case h_3 => cases h
  all_goals
    next hbefore =>
    cases hbefore
    cases h
    rcases hphase with rfl | rfl <;> rfl

theorem comma_inMember (h : r.comma = some q) :
    (r.inMember members key below).comma = some (q.inMember members key below) := by
  obtain ⟨stack, phase, mode⟩ := r
  unfold comma at h
  split at h
  case h_3 => cases h
  all_goals
    next hphase hstack =>
    cases hphase
    cases hstack
    cases h
    rfl

theorem colon_inMember (h : r.colon = some q) :
    (r.inMember members key below).colon = some (q.inMember members key below) := by
  obtain ⟨stack, phase, mode⟩ := r
  unfold colon at h
  split at h
  · next hphase =>
    cases hphase
    cases h
    rfl
  · cases h

theorem punctuate_inMember {c : Char} (h : r.punctuate c = some q) :
    (r.inMember members key below).punctuate c = some (q.inMember members key below) := by
  unfold punctuate at h ⊢
  split_ifs at h ⊢
  -- a blank, a quote, what opens or closes, a comma, a colon, a letter, a character of numerals
  · cases h
    rfl
  · cases h
    exact congrArg some (inMember_withMode _).symm
  · exact opens_inMember h (.inl rfl)
  · exact opens_inMember h (.inr rfl)
  · exact close_inMember h
  · exact comma_inMember h
  · exact colon_inMember h
  · cases h
    exact congrArg some (inMember_withMode _).symm
  · cases h
    exact congrArg some (inMember_withMode _).symm

theorem settle_punctuate_inMember {c : Char}
    (h : (r.settle.bind fun r => r.punctuate c) = some q) :
    ((r.inMember members key below).settle.bind fun r => r.punctuate c) =
      some (q.inMember members key below) := by
  obtain ⟨settled, hsettle, hpunctuate⟩ := Option.bind_eq_some_iff.1 h
  exact Option.bind_eq_some_iff.2
    ⟨_, settle_inMember hsettle, punctuate_inMember hpunctuate⟩

theorem feed_inMember {c : Char} (h : r.feed c = some q) :
    (r.inMember members key below).feed c = some (q.inMember members key below) := by
  unfold feed at h ⊢
  rw [inMember_mode]
  cases hmode : r.mode with
  | between =>
    rw [hmode] at h
    exact punctuate_inMember h
  | word letters =>
    rw [hmode] at h
    dsimp only at h ⊢
    split_ifs at h ⊢
    · cases h
      exact congrArg some (inMember_withMode _).symm
    · exact settle_punctuate_inMember h
  | numeral chars =>
    rw [hmode] at h
    dsimp only at h ⊢
    split_ifs at h ⊢
    · cases h
      exact congrArg some (inMember_withMode _).symm
    · exact settle_punctuate_inMember h
  | string body =>
    rw [hmode] at h
    dsimp only at h ⊢
    split_ifs at h ⊢
    · rw [← inMember_withMode]
      exact acceptString_inMember h
    · cases h
      exact congrArg some (inMember_withMode _).symm
    · cases h
      exact congrArg some (inMember_withMode _).symm
  | escape body =>
    rw [hmode] at h
    cases h
    exact congrArg some (inMember_withMode _).symm

/-! ## Runs -/

theorem run_inMember {text : List Char} (h : r.run text = some q) :
    (r.inMember members key below).run text = some (q.inMember members key below) := by
  induction text generalizing r with
  | nil =>
    cases h
    rfl
  | cons c text ih =>
    rw [run_cons] at h ⊢
    obtain ⟨next, hfeed, hrun⟩ := Option.bind_eq_some_iff.1 h
    rw [feed_inMember hfeed, Option.bind_some, ih hrun]

theorem accept_mode {tree : Tree} (h : r.accept tree = some q) : q.mode = .between := by
  unfold accept at h
  split at h
  case h_5 => cases h
  all_goals
    cases h
    rfl

theorem settle_mode (h : r.settle = some q) : q.mode = .between := by
  unfold settle at h
  split at h
  · next hmode =>
    cases h
    exact hmode
  · obtain ⟨tree, -, haccept⟩ := Option.bind_eq_some_iff.1 h
    exact accept_mode haccept
  · split at h
    · exact accept_mode h
    · cases h
  · cases h
  · cases h

/-- A text that is read as a tree completes an open member with it. -/
theorem takes_in_member {text : String} {tree : Tree} (h : Tree.read? text = some tree) :
    Takes ⟨.member members key :: below, .value, .between⟩ text.toList
      ⟨.object ((key, tree) :: members) :: below, .commaOrClose, .between⟩ := by
  obtain ⟨r', hrun, hfinish⟩ := Option.bind_eq_some_iff.1 h
  obtain ⟨q, hsettle, hphase⟩ := Option.bind_eq_some_iff.1 hfinish
  refine ⟨r'.inMember members key below, run_inMember hrun, ?_⟩
  rw [settle_inMember hsettle]
  obtain ⟨stack, phase, mode⟩ := q
  obtain rfl : mode = .between := settle_mode hsettle
  cases phase with
  | finished tree' =>
    cases hphase
    rfl
  | _ => cases hphase

end Reader

/-- An object with one member is read as that key and whatever the text of the value is read as. -/
theorem Tree.read?_member {key : List Char} {text : String} {tree : Tree}
    (hkey : (pieces? key).isSome) (h : Tree.read? text = some tree) :
    Tree.read? ("\x7b" ++ Tree.quoted key ++ ": " ++ text ++ "\x7d") =
      some (.object (.cons key tree .nil)) := by
  have htext : ("\x7b" ++ Tree.quoted key ++ ": " ++ text ++ "\x7d").toList =
      '\x7b' :: ((Tree.quoted key).toList ++ ':' :: ' ' :: (text.toList ++ ['\x7d'])) := by
    simp
  have haccept : Reader.start.accept (.object (.cons key tree .nil)) =
      some ⟨[], .finished (.object (.cons key tree .nil)), .between⟩ := rfl
  have hspace (rest : List Char) :
      Reader.run ⟨[.member [] key], .value, .between⟩ (' ' :: rest) =
        Reader.run ⟨[.member [] key], .value, .between⟩ rest := by
    rw [Reader.run_cons]
    rfl
  have hvalue : Reader.Takes ⟨[.member [] key], .value, .between⟩ text.toList
      ⟨[.object [(key, tree)]], .commaOrClose, .between⟩ := Reader.takes_in_member h
  rw [Tree.read?, htext, Reader.start, (Reader.run_opening haccept _).2,
    Reader.run_key hkey (.inr rfl), hspace, hvalue.run_append rfl rfl]
  rfl

end ObjectGraph.Json
