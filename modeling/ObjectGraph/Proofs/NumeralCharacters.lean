import ObjectGraph.Fragment
import ObjectGraph.Proofs.NumeralText

/-!
# Characters in the text of a number

The texts of integers and of finite doubles, in whatever layout, are made of digits, signs, points
and the mark of an exponent. So are the numbers in a fragment, unless they are not finite.
-/
namespace ObjectGraph

open Json.Reader (isNumeralChar)

/-- Nothing but characters of numerals. -/
abbrev Text.IsNumeral (text : String) : Prop := ∀ c ∈ text.toList, isNumeralChar c = true

namespace Text

variable {s t : String}

theorem IsNumeral.not_mem {c : Char} (hs : IsNumeral s) (hc : isNumeralChar c = false) :
    c ∉ s.toList := by
  intro h
  rw [hs c h] at hc
  cases hc

theorem IsNumeral.append (hs : IsNumeral s) (ht : IsNumeral t) : IsNumeral (s ++ t) := by
  intro c hc
  rw [String.toList_append, List.mem_append] at hc
  exact hc.elim (hs c) (ht c)

theorem IsNumeral.ite {p : Prop} [Decidable p] (hs : IsNumeral s) (ht : IsNumeral t) :
    IsNumeral (if p then s else t) := by
  split_ifs
  · exact hs
  · exact ht

theorem isNumeral_of_all (h : s.toList.all isNumeralChar = true) : IsNumeral s :=
  List.all_eq_true.1 h

theorem isNumeral_ofList {cs : List Char} (h : ∀ c ∈ cs, isNumeralChar c = true) :
    IsNumeral (String.ofList cs) := by
  intro c hc
  rw [String.toList_ofList] at hc
  exact h c hc

theorem isNumeral_of_digits {cs : List Char} (h : ∀ c ∈ cs, c.isDigit = true) :
    IsNumeral (String.ofList cs) :=
  isNumeral_ofList fun c hc => Json.Numeral.isNumeralChar_of_isDigit (h c hc)

theorem isNumeral_natural (n : Nat) : IsNumeral (toString n) := by
  have htext : toString n = String.ofList (Nat.toDigits 10 n) := Nat.repr_eq_ofList_toDigits
  rw [htext]
  exact isNumeral_of_digits Json.Numeral.isDigit_of_mem_toDigits

theorem isNumeral_integer (n : Int) : IsNumeral (toString n) := by
  cases n with
  | ofNat n => exact isNumeral_natural n
  | negSucc n =>
    exact IsNumeral.append (s := "-") (isNumeral_of_all rfl) (isNumeral_natural (n + 1))

end Text

namespace Decimal.Layout

open Text

variable (layout : Layout) {digits : List Char} (h : ∀ c ∈ digits, c.isDigit = true)

include h

theorem isNumeral_positionalText (point : Int) :
    IsNumeral (layout.positionalText digits point) := by
  have hdigits := isNumeral_of_digits h
  have hzeros (n : Nat) : IsNumeral (zeros n) :=
    isNumeral_of_digits fun c hc => by rw [List.eq_of_mem_replicate hc]; rfl
  have hfront := isNumeral_of_digits fun c hc => h c (List.mem_of_mem_take (i := point.toNat) hc)
  have hback := isNumeral_of_digits fun c hc => h c (List.mem_of_mem_drop (i := point.toNat) hc)
  unfold positionalText
  refine .ite (.append (.append (isNumeral_of_all rfl) (hzeros _)) hdigits) (.ite ?_ ?_)
  · exact .append (.append hdigits (hzeros _)) (.ite (isNumeral_of_all rfl) (isNumeral_of_all rfl))
  · exact .append (.append hfront (isNumeral_of_all rfl)) hback

theorem isNumeral_exponentText (exponent : Int) :
    IsNumeral (layout.exponentText digits exponent) := by
  have hfirst := isNumeral_of_digits fun c hc => h c (List.mem_of_mem_take (i := 1) hc)
  have hothers := isNumeral_of_digits fun c hc => h c (List.mem_of_mem_drop (i := 1) hc)
  have hfraction := IsNumeral.ite (p := (digits.drop 1).isEmpty) (s := "") (isNumeral_of_all rfl)
    (IsNumeral.append (s := ".") (isNumeral_of_all rfl) hothers)
  have hplus := IsNumeral.ite (p := layout.plusSign && 0 ≤ exponent) (s := "+") (t := "")
    (isNumeral_of_all rfl) (isNumeral_of_all rfl)
  exact .append (.append (.append (.append hfirst hfraction) (isNumeral_of_all rfl)) hplus)
    (isNumeral_integer exponent)

omit h

theorem isNumeral_decimalText (d : Decimal) : IsNumeral (layout.decimalText d) := by
  have hdigits : ∀ c ∈ Nat.toDigits 10 d.digits, c.isDigit = true :=
    Json.Numeral.isDigit_of_mem_toDigits
  unfold decimalText
  exact .ite (layout.isNumeral_positionalText hdigits _) (layout.isNumeral_exponentText hdigits _)

theorem isNumeral_text {x : Binary64} (hnan : x.isNaN = false) (hinfinite : x.isInfinite = false) :
    IsNumeral (layout.text x) := by
  have hzero := IsNumeral.ite (p := layout.pointZero) (s := "0.0") (t := "0") (isNumeral_of_all rfl)
    (isNumeral_of_all rfl)
  simp only [text, hnan, hinfinite, Bool.false_eq_true, if_false]
  exact .append (.ite (isNumeral_of_all rfl) (isNumeral_of_all rfl))
    (.ite hzero (layout.isNumeral_decimalText _))

end Decimal.Layout

namespace Fragment

theorem floatText_cases (x : Binary64) : Text.IsNumeral (floatText x) ∨
    floatText x ∈ ["f64::NAN", "f64::NEG_INFINITY", "f64::INFINITY"] := by
  unfold floatText
  split_ifs with hnan hinfinite
  · exact .inr (by decide)
  · exact .inr (by decide)
  · exact .inr (by decide)
  · exact .inl (Decimal.exact.isNumeral_text (by simpa using hnan) (by simpa using hinfinite))

theorem not_mem_floatText {c : Char} (hc : isNumeralChar c = false)
    (hconstants : ∀ s ∈ ["f64::NAN", "f64::NEG_INFINITY", "f64::INFINITY"], c ∉ s.toList)
    (x : Binary64) : c ∉ (floatText x).toList := by
  rcases floatText_cases x with hnumeral | hconstant
  · exact hnumeral.not_mem hc
  · exact hconstants _ hconstant

end Fragment
end ObjectGraph
