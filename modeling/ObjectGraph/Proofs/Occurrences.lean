import ObjectGraph.Text.Joined
import ObjectGraph.Text.Quoted
import Mathlib.Data.List.Infix

/-!
# Occurrences of a text in another

How often a needle occurs in a text, at any position. Text that is put together around characters
that do not occur in the needle has the occurrences of its parts, and quoting a text keeps its
occurrences of a needle that is written as itself.
-/
namespace ObjectGraph.Text

/-- The positions of the text at which the needle stands. -/
def occurrences (needle : List Char) : List Char → Nat
  | [] => 0
  | c :: rest => (if needle <+: c :: rest then 1 else 0) + occurrences needle rest

section

variable {needle a b : List Char} {c : Char}

theorem occurrences_cons_of_not_prefix (h : ¬ needle <+: c :: b) :
    occurrences needle (c :: b) = occurrences needle b := by
  simp [occurrences, h]

theorem occurrences_eq_zero_iff (hneedle : needle ≠ []) {text : List Char} :
    occurrences needle text = 0 ↔ ¬ needle <:+: text := by
  induction text with
  | nil => simp [occurrences, hneedle]
  | cons c rest ih => simp [occurrences, ih, List.infix_cons_iff]

theorem occurrences_of_not_mem (hc : c ∈ needle) {text : List Char} (h : c ∉ text) :
    occurrences needle text = 0 := by
  have hneedle : needle ≠ [] := List.ne_nil_of_mem hc
  rw [occurrences_eq_zero_iff hneedle]
  intro hoccurs
  exact h (hoccurs.subset hc)

/-- A character that is not in the needle stands between the occurrences. -/
theorem prefix_append_cons_iff (hc : c ∉ needle) : needle <+: a ++ c :: b ↔ needle <+: a := by
  constructor
  · intro h
    rcases Nat.lt_or_ge a.length needle.length with hlt | hle
    · have hfront : a ++ [c] <+: a ++ c :: b := by simp
      have hlength : (a ++ [c]).length ≤ needle.length := by
        rw [List.length_append, List.length_singleton]
        exact hlt
      have hlong : a ++ [c] <+: needle := List.prefix_of_prefix_length_le hfront h hlength
      exact absurd (hlong.subset (by simp)) hc
    · exact List.prefix_of_prefix_length_le h (List.prefix_append a _) hle
  · exact List.prefix_append_of_prefix

theorem occurrences_append_cons (hneedle : needle ≠ []) (hc : c ∉ needle) :
    occurrences needle (a ++ c :: b) = occurrences needle a + occurrences needle b := by
  induction a with
  | nil =>
    have hnot : ¬ needle <+: c :: b := by
      rw [← List.nil_append (c :: b), prefix_append_cons_iff hc, List.prefix_nil]
      exact hneedle
    rw [List.nil_append, occurrences_cons_of_not_prefix hnot, occurrences, Nat.zero_add]
  | cons x a ih =>
    have hiff : needle <+: x :: (a ++ c :: b) ↔ needle <+: x :: a :=
      prefix_append_cons_iff (a := x :: a) hc
    simp only [List.cons_append, occurrences, hiff, ih, Nat.add_assoc]

theorem occurrences_append_of_head (hneedle : needle ≠ []) (hc : c ∉ needle)
    (h : b.head? = some c) :
    occurrences needle (a ++ b) = occurrences needle a + occurrences needle b := by
  obtain ⟨rest, rfl⟩ := List.head?_eq_some_iff.1 h
  have hrest : occurrences needle (c :: rest) = occurrences needle rest := by
    rw [← List.nil_append (c :: rest), occurrences_append_cons hneedle hc, occurrences,
      Nat.zero_add]
  rw [occurrences_append_cons hneedle hc, hrest]

theorem occurrences_append_of_getLast (hneedle : needle ≠ []) (hc : c ∉ needle)
    (h : a.getLast? = some c) :
    occurrences needle (a ++ b) = occurrences needle a + occurrences needle b := by
  obtain ⟨front, rfl⟩ := List.getLast?_eq_some_iff.1 h
  have hfront : occurrences needle (front ++ [c]) = occurrences needle front := by
    rw [occurrences_append_cons hneedle hc, occurrences, Nat.add_zero]
  rw [List.append_assoc, List.singleton_append, occurrences_append_cons hneedle hc, hfront]

/-- A part without the needle's first character begins no occurrence. -/
theorem occurrences_append_of_not_mem (hc : c ∉ a) :
    occurrences (c :: needle) (a ++ b) = occurrences (c :: needle) b := by
  induction a with
  | nil => rfl
  | cons x a ih =>
    simp only [List.mem_cons, not_or] at hc
    obtain ⟨hx, ha⟩ := hc
    have hnot : ¬ c :: needle <+: x :: (a ++ b) := by
      rw [List.cons_prefix_cons]
      exact fun h => hx h.1
    rw [List.cons_append, occurrences_cons_of_not_prefix hnot, ih ha]

end

/-! ## Quoted text -/

theorem colon_not_mem_hexDigits (n : Nat) : ':' ∉ hexDigits n := by
  have hdigit : ∀ d < 16, ':' ≠ Nat.digitChar d := by decide
  intro h
  obtain ⟨d, hd, hcolon⟩ := exists_of_mem_hexDigits h
  exact hdigit d hd hcolon

/-- A character is written as itself, or as an escape. -/
theorem escape_cases (c : Char) :
    escape c = [c] ∨ ∃ rest, escape c = '\\' :: rest ∧ ':' ∉ rest := by
  unfold escape
  split_ifs
  · exact .inr ⟨_, rfl, by decide⟩
  · exact .inr ⟨_, rfl, by decide⟩
  · exact .inr ⟨_, rfl, by decide⟩
  · exact .inr ⟨_, rfl, by decide⟩
  · exact .inr ⟨_, rfl, by decide⟩
  · exact .inr ⟨_, rfl, by decide⟩
  · exact .inl rfl
  · refine .inr ⟨_, rfl, ?_⟩
    simp [colon_not_mem_hexDigits]

/-- Whether the characters of a needle are written as themselves. -/
abbrev WrittenPlain (needle : List Char) : Prop := ∀ c ∈ needle, escape c = [c]

theorem prefix_escapeAll_iff {needle : List Char} (h : WrittenPlain needle) (text : List Char) :
    needle <+: escapeAll text ↔ needle <+: text := by
  induction text generalizing needle with
  | nil => simp
  | cons c text ih =>
    cases needle with
    | nil => simp
    | cons d needle =>
      obtain ⟨hd, hneedle⟩ := List.forall_mem_cons.1 h
      rw [escapeAll_cons, List.cons_prefix_cons]
      rcases escape_cases c with hc | ⟨rest, hc, -⟩
      · rw [hc, List.singleton_append, List.cons_prefix_cons, ih hneedle]
      · rw [hc, List.cons_append, List.cons_prefix_cons]
        have hslash : d ≠ '\\' := by
          rintro rfl
          exact absurd hd (by decide)
        have hne : d ≠ c := by
          rintro rfl
          rw [hc] at hd
          exact hslash (List.cons.inj hd).1.symm
        simp [hslash, hne]

/-- An escape begins no occurrence of a needle that begins with a colon, and it continues none. -/
theorem occurrences_escapeAll {needle : List Char} (h : WrittenPlain (':' :: needle))
    (text : List Char) :
    occurrences (':' :: needle) (escapeAll text) = occurrences (':' :: needle) text := by
  induction text with
  | nil => rfl
  | cons c text ih =>
    have hprefix := prefix_escapeAll_iff h (c :: text)
    rw [escapeAll_cons] at hprefix ⊢
    rcases escape_cases c with hc | ⟨rest, hc, hrest⟩
    · rw [hc, List.singleton_append] at hprefix ⊢
      simp only [occurrences, hprefix, ih]
    · have hcolon : ':' ∉ escape c := by
        rw [hc, List.mem_cons, not_or]
        exact ⟨by decide, hrest⟩
      have hnot : ¬ ':' :: needle <+: c :: text := by
        rw [List.cons_prefix_cons]
        rintro ⟨rfl, -⟩
        exact absurd hc (by rw [h ':' List.mem_cons_self]; simp)
      rw [occurrences_append_of_not_mem hcolon, occurrences_cons_of_not_prefix hnot, ih]

/-- How often the needle occurs in the text. -/
def count (text needle : String) : Nat := occurrences needle.toList text.toList

theorem count_eq_zero_iff {text needle : String} (h : needle.toList ≠ []) :
    count text needle = 0 ↔ contains text needle = false := by
  rw [count, occurrences_eq_zero_iff h, ← contains_iff, Bool.not_eq_true]

theorem occurrences_quote {needle : List Char} (h : WrittenPlain (':' :: needle)) (s : String) :
    occurrences (':' :: needle) (quote s).toList = occurrences (':' :: needle) s.toList := by
  have hquote : '"' ∉ ':' :: needle := fun hmem => absurd (h '"' hmem) (by decide)
  have hfront : (quote s).toList = [] ++ '"' :: (escapeAll s.toList ++ '"' :: []) := by
    simp [quote]
  rw [hfront, occurrences_append_cons (List.cons_ne_nil _ _) hquote,
    occurrences_append_cons (List.cons_ne_nil _ _) hquote,
    occurrences_escapeAll h, occurrences, Nat.zero_add, Nat.add_zero]

end ObjectGraph.Text
