import ObjectGraph.Proofs.StringLiterals
import ObjectGraph.Text.Joined

/-!
# Where one text ends and the next begins

A text that goes on differently at its end can be cut off what follows it in one way only: a run of
characters of one kind before a character of another kind, a quoted text before anything, and a list
of parts that are themselves cut so, when what follows it is neither a part nor a separator.
-/
namespace ObjectGraph.Text

/-- No character of that kind comes next. -/
def Ends (kind : Char → Bool) (rest : List Char) : Prop := ∀ c ∈ rest.head?, kind c = false

variable {kind : Char → Bool}

theorem ends_nil : Ends kind [] := nofun

theorem ends_cons {c : Char} {rest : List Char} (h : kind c = false) : Ends kind (c :: rest) := by
  rintro _ ⟨⟩
  exact h

theorem Ends.of_imp {wider : Char → Bool} {rest : List Char} (h : Ends wider rest)
    (himp : ∀ c, kind c = true → wider c = true) : Ends kind rest := fun c hc =>
  Bool.eq_false_iff.2 fun hkind => Bool.false_ne_true ((h c hc).symm.trans (himp c hkind))

theorem takeWhile_run {run rest : List Char} (hrun : ∀ c ∈ run, kind c = true)
    (hrest : Ends kind rest) : (run ++ rest).takeWhile kind = run := by
  have hnone : rest.takeWhile kind = [] := by
    cases rest with
    | nil => rfl
    | cons c rest => exact List.takeWhile_cons_of_neg (by simp [hrest c rfl])
  rw [List.takeWhile_append_of_pos hrun, hnone, List.append_nil]

/-- A run is as long as can be. -/
theorem run_cut {xs ys r s : List Char} (hxs : ∀ c ∈ xs, kind c = true)
    (hys : ∀ c ∈ ys, kind c = true) (hr : Ends kind r) (hs : Ends kind s) (h : xs ++ r = ys ++ s) :
    xs = ys ∧ r = s := by
  have hruns : xs = ys := by
    rw [← takeWhile_run hxs hr, h, takeWhile_run hys hs]
  subst hruns
  exact ⟨rfl, List.append_cancel_left h⟩

/-- A literal that has begun is a token, if it ends. -/
theorem tokensFrom?_ne_nil {scan : Scan} (hscan : scan ≠ .outside) (text : List Char) :
    tokensFrom? scan text ≠ some [] := by
  intro h
  fun_induction tokensFrom? scan text with
  | case1 => exact hscan rfl
  | case2 => cases h
  | case10 _ _ _ _ ih | case14 _ _ _ _ _ ih | case16 _ _ _ _ _ _ _ ih =>
    obtain ⟨d, -, hrest⟩ := Option.bind_eq_some_iff.1 h
    exact ih d nofun hrest
  | _ => simp_all

theorem eq_nil_of_tokens? {text : List Char} (h : tokens? text = some []) : text = [] := by
  cases text with
  | nil => rfl
  | cons c rest =>
    by_cases hc : c = '"'
    · rw [tokens?, tokensFrom?, if_pos hc] at h
      exact absurd h (tokensFrom?_ne_nil (by simp) rest)
    · rw [tokens?, tokensFrom?, if_neg hc] at h
      obtain ⟨_, -, hcons⟩ := Option.map_eq_some_iff.1 h
      cases hcons

/-- No quoted text goes on as another one. -/
theorem quote_cut {s t : String} {x y : List Char}
    (h : (quote s).toList ++ x = (quote t).toList ++ y) : s = t ∧ x = y := by
  have hlonger {s t : String} {z : List Char} (h : (quote t).toList = (quote s).toList ++ z) :
      s = t ∧ z = [] := by
    have htokens := tokens?_quote t []
    rw [List.append_nil, h, tokens?_quote] at htokens
    obtain ⟨tokens, hz, hcons⟩ := Option.map_eq_some_iff.1 htokens
    obtain ⟨hst, rfl⟩ := List.cons.inj hcons
    exact ⟨Token.literal.inj hst, eq_nil_of_tokens? hz⟩
  rcases List.append_eq_append_iff.1 h with ⟨z, hz, rfl⟩ | ⟨z, hz, rfl⟩
  · obtain ⟨rfl, rfl⟩ := hlonger hz
    exact ⟨rfl, rfl⟩
  · obtain ⟨rfl, rfl⟩ := hlonger hz
    exact ⟨rfl, rfl⟩

/-! ## Parts -/

/-- Before such a rest, neither of the two texts goes on as the other one. -/
def Cuts {α : Type} (text : α → String) (Rest : List Char → Prop) (a b : α) : Prop :=
  ∀ r s, Rest r → Rest s → (text a).toList ++ r = (text b).toList ++ s → a = b ∧ r = s

theorem Cuts.symm {α : Type} {text : α → String} {Rest : List Char → Prop} {a b : α}
    (h : Cuts text Rest a b) : Cuts text Rest b a := by
  intro r s hr hs htext
  obtain ⟨hab, hrest⟩ := h s r hs hr htext.symm
  exact ⟨hab.symm, hrest.symm⟩

/-- Each part after a separator. -/
def separated (separator : String) (parts : List String) : List Char :=
  parts.flatMap fun part => separator.toList ++ part.toList

theorem separated_cons (separator part : String) (parts : List String) :
    separated separator (part :: parts) =
      separator.toList ++ (part.toList ++ separated separator parts) := by
  simp [separated]

theorem toList_joined_cons (separator part : String) (parts : List String) :
    (joined separator (part :: parts)).toList = part.toList ++ separated separator parts := by
  induction parts generalizing part with
  | nil => simp [separated]
  | cons next parts ih =>
    rw [joined_cons_cons, String.toList_append, String.toList_append, ih, separated_cons]
    simp

section Parts

variable {α : Type} {text : α → String} {separator : String} {Rest : List Char → Prop}
  {as bs : List α} {r s : List Char}

theorem rest_of_separated (hseparator : ∀ x, Rest (separator.toList ++ x)) (hr : Rest r)
    (parts : List String) : Rest (separated separator parts ++ r) := by
  cases parts with
  | nil => exact hr
  | cons part parts =>
    rw [separated_cons, List.append_assoc]
    exact hseparator _

theorem separated_cut (hcuts : ∀ a ∈ as, ∀ b ∈ bs, Cuts text Rest a b)
    (hseparator : ∀ x, Rest (separator.toList ++ x)) (hr : Rest r) (hs : Rest s)
    (hr' : ∀ x, separator.toList ++ x ≠ r) (hs' : ∀ x, separator.toList ++ x ≠ s)
    (h : separated separator (as.map text) ++ r = separated separator (bs.map text) ++ s) :
    as = bs ∧ r = s := by
  induction as generalizing bs with
  | nil =>
    cases bs with
    | nil => exact ⟨rfl, h⟩
    | cons b bs =>
      rw [List.map_cons, separated_cons, List.append_assoc] at h
      exact absurd h.symm (hr' _)
  | cons a as ih =>
    cases bs with
    | nil =>
      rw [List.map_cons, separated_cons, List.append_assoc] at h
      exact absurd h (hs' _)
    | cons b bs =>
      obtain ⟨hfirst, hothers⟩ := List.forall_mem_cons.1 hcuts
      simp only [List.map_cons, separated_cons, List.append_assoc] at h
      obtain ⟨rfl, hrest⟩ := hfirst b List.mem_cons_self _ _ (rest_of_separated hseparator hr _)
        (rest_of_separated hseparator hs _) (List.append_cancel_left h)
      obtain ⟨rfl, rfl⟩ :=
        ih (fun a ha b hb => hothers a ha b (List.mem_cons_of_mem _ hb)) hrest
      exact ⟨rfl, rfl⟩

theorem joined_cut (hcuts : ∀ a ∈ as, ∀ b ∈ bs, Cuts text Rest a b)
    (hseparator : ∀ x, Rest (separator.toList ++ x)) (hr : Rest r) (hs : Rest s)
    (hr' : ∀ x, separator.toList ++ x ≠ r) (hs' : ∀ x, separator.toList ++ x ≠ s)
    (has : ∀ a ∈ as, ∀ x, (text a).toList ++ x ≠ s)
    (hbs : ∀ b ∈ bs, ∀ x, (text b).toList ++ x ≠ r)
    (h : (joined separator (as.map text)).toList ++ r =
      (joined separator (bs.map text)).toList ++ s) : as = bs ∧ r = s := by
  cases as with
  | nil =>
    cases bs with
    | nil => exact ⟨rfl, h⟩
    | cons b bs =>
      rw [List.map_cons, toList_joined_cons, List.append_assoc] at h
      exact absurd h.symm (hbs b List.mem_cons_self _)
  | cons a as =>
    cases bs with
    | nil =>
      rw [List.map_cons, toList_joined_cons, List.append_assoc] at h
      exact absurd h (has a List.mem_cons_self _)
    | cons b bs =>
      obtain ⟨hfirst, hothers⟩ := List.forall_mem_cons.1 hcuts
      simp only [List.map_cons, toList_joined_cons, List.append_assoc] at h
      obtain ⟨rfl, hrest⟩ := hfirst b List.mem_cons_self _ _ (rest_of_separated hseparator hr _)
        (rest_of_separated hseparator hs _) h
      obtain ⟨rfl, rfl⟩ := separated_cut
        (fun a ha b hb => hothers a ha b (List.mem_cons_of_mem _ hb)) hseparator hr hs hr' hs' hrest
      exact ⟨rfl, rfl⟩

end Parts

end ObjectGraph.Text
