import Mathlib.Data.List.TakeWhile
import ObjectGraph.Json.Reader

/-!
# Text of numerals

A numeral is a sign, digits and what may follow them, in the characters of numerals throughout.
The text of an integer is read back as that integer. The text of a finite double is never read as
an integer, so that it comes back as a double, and as this one where its number is read exactly.
-/
namespace ObjectGraph.Json.Numeral

open Reader (isNumeralChar)

theorem isNumeralChar_of_isDigit {c : Char} (h : c.isDigit) : isNumeralChar c := by
  simp [isNumeralChar, h]

/-! ## Parts of a numeral -/

/-- The digits come first, and there is at least one. -/
theorem digits?_eq_some {cs rest : List Char} {ds : List Nat} (h : digits? cs = some (ds, rest)) :
    ∃ front, front ≠ [] ∧ (∀ c ∈ front, c.isDigit) ∧ cs = front ++ rest := by
  unfold digits? at h
  split at h
  · cases h
  · next front hfront =>
    cases h
    exact ⟨cs.takeWhile Char.isDigit, hfront, fun c => List.mem_takeWhile_imp,
      List.takeWhile_append_dropWhile.symm⟩

theorem digits?_of_whole? {cs rest : List Char} {ds : List Nat} (h : whole? cs = some (ds, rest)) :
    digits? cs = some (ds, rest) := by
  unfold whole? at h
  split at h
  · cases h
  · exact h

theorem fraction?_eq_some {cs rest : List Char} {fraction : Option (List Nat)}
    (h : fraction? cs = some (fraction, rest)) :
    ∃ front, (∀ c ∈ front, isNumeralChar c) ∧ cs = front ++ rest ∧
      (fraction = none → front = []) := by
  unfold fraction? at h
  split at h
  · next after =>
    obtain ⟨⟨ds, left⟩, hdigits, hpair⟩ := Option.map_eq_some_iff.1 h
    cases hpair
    obtain ⟨front, -, hfront, rfl⟩ := digits?_eq_some hdigits
    refine ⟨'.' :: front, ?_, rfl, nofun⟩
    exact List.forall_mem_cons.2 ⟨rfl, fun c hc => isNumeralChar_of_isDigit (hfront c hc)⟩
  · cases h
    exact ⟨[], by simp, rfl, fun _ => rfl⟩

theorem exponentDigits?_eq_some {sign value : Int} {cs : List Char}
    (h : exponentDigits? sign cs = some value) : ∀ c ∈ cs, isNumeralChar c := by
  unfold exponentDigits? at h
  split at h
  · next hdigits =>
    obtain ⟨front, -, hfront, rfl⟩ := digits?_eq_some hdigits
    simpa using fun c hc => isNumeralChar_of_isDigit (hfront c hc)
  · cases h

theorem exponent?_eq_some {cs : List Char} {exponent : Option Int}
    (h : exponent? cs = some exponent) :
    (∀ c ∈ cs, isNumeralChar c) ∧ (exponent = none → cs = []) := by
  unfold exponent? at h
  split at h
  · exact ⟨by simp, fun _ => rfl⟩
  · next mark rest =>
    split at h
    · next hmark =>
      have hmark' : isNumeralChar mark := by
        rcases hmark with rfl | rfl <;> rfl
      split at h
      all_goals
        obtain ⟨value, hvalue, rfl⟩ := Option.map_eq_some_iff.1 h
        have hdigits := exponentDigits?_eq_some hvalue
        refine ⟨?_, nofun⟩
        simp only [List.forall_mem_cons]
      · exact ⟨hmark', rfl, hdigits⟩
      · exact ⟨hmark', rfl, hdigits⟩
      · exact ⟨hmark', hdigits⟩
    · cases h

/-- What follows the sign. -/
def unsigned? (negative : Bool) (cs : List Char) : Option Numeral := do
  let (whole, rest) ← whole? cs
  let (fraction, rest) ← fraction? rest
  let exponent ← exponent? rest
  return { negative, whole, fraction, exponent }

theorem ofChars?_minus (cs : List Char) : ofChars? ('-' :: cs) = unsigned? true cs := rfl

theorem ofChars?_of_ne {cs : List Char} (h : ∀ rest, cs ≠ '-' :: rest) :
    ofChars? cs = unsigned? false cs := by
  unfold ofChars?
  split
  next hsign =>
  split at hsign
  · next rest => exact absurd rfl (h rest)
  · cases hsign
    rfl

/-- Digits, and what follows them, which is nothing without fraction and exponent. -/
theorem exists_of_unsigned? {negative : Bool} {cs : List Char} {n : Numeral}
    (h : unsigned? negative cs = some n) :
    ∃ whole rest, cs = whole ++ rest ∧ whole ≠ [] ∧ (∀ c ∈ whole, c.isDigit) ∧
      (∀ c ∈ rest, isNumeralChar c) ∧ (n.fraction = none → n.exponent = none → rest = []) := by
  simp only [unsigned?, Option.bind_eq_bind, Option.bind_eq_some_iff, Prod.exists] at h
  obtain ⟨ds, afterWhole, hwhole, fraction, afterFraction, hfraction, exponent, hexponent, hn⟩ := h
  cases hn
  obtain ⟨whole, hne, hdigits, rfl⟩ := digits?_eq_some (digits?_of_whole? hwhole)
  obtain ⟨middle, hmiddle, rfl, hnoFraction⟩ := fraction?_eq_some hfraction
  obtain ⟨hend, hnoExponent⟩ := exponent?_eq_some hexponent
  refine ⟨whole, middle ++ afterFraction, rfl, hne, hdigits, ?_, ?_⟩
  · exact List.forall_mem_append.2 ⟨hmiddle, hend⟩
  · intro hfraction hexponent
    rw [hnoFraction hfraction, hnoExponent hexponent]
    rfl

/-- A numeral is a sign, digits and what follows them. -/
theorem exists_of_ofChars? {cs : List Char} {n : Numeral} (h : ofChars? cs = some n) :
    ∃ sign whole rest, cs = sign ++ (whole ++ rest) ∧ (sign = [] ∨ sign = ['-']) ∧
      whole ≠ [] ∧ (∀ c ∈ whole, c.isDigit) ∧ (∀ c ∈ rest, isNumeralChar c) ∧
      (n.fraction = none → n.exponent = none → rest = []) := by
  by_cases hminus : ∃ unsigned, cs = '-' :: unsigned
  · obtain ⟨unsigned, rfl⟩ := hminus
    obtain ⟨whole, rest, rfl, hrest⟩ := exists_of_unsigned? h
    exact ⟨['-'], whole, rest, rfl, .inr rfl, hrest⟩
  · rw [ofChars?_of_ne (not_exists.1 hminus)] at h
    obtain ⟨whole, rest, rfl, hrest⟩ := exists_of_unsigned? h
    exact ⟨[], whole, rest, rfl, .inl rfl, hrest⟩

/-- A numeral begins with a sign or a digit. -/
theorem exists_first_of_ofChars? {cs : List Char} {n : Numeral} (h : ofChars? cs = some n) :
    ∃ c rest, cs = c :: rest ∧ (c = '-' ∨ c.isDigit) ∧ ∀ d ∈ rest, isNumeralChar d := by
  obtain ⟨sign, whole, rest, rfl, hsign, hne, hwhole, hrest, -⟩ := exists_of_ofChars? h
  have hnumeral : ∀ c ∈ whole ++ rest, isNumeralChar c :=
    List.forall_mem_append.2 ⟨fun c hc => isNumeralChar_of_isDigit (hwhole c hc), hrest⟩
  rcases hsign with rfl | rfl
  · obtain ⟨d, ds, rfl⟩ := List.exists_cons_of_ne_nil hne
    exact ⟨d, ds ++ rest, rfl, .inr (hwhole d List.mem_cons_self),
      (List.forall_mem_cons.1 hnumeral).2⟩
  · exact ⟨'-', whole ++ rest, rfl, .inl rfl, hnumeral⟩

/-! ## Integers -/

theorem digitValue_digitChar {n : Nat} (h : n < 10) : digitValue n.digitChar = n := by
  rw [digitValue, Nat.toNat_digitChar_of_lt_ten h]
  exact Nat.add_sub_cancel_left ..

/-- The digits of a positive number do not begin with a zero. -/
theorem exists_toDigits {n : Nat} (h : 0 < n) :
    ∃ d ds, Nat.toDigits 10 n = d :: ds ∧ 0 < digitValue d := by
  induction n using Nat.strongRecOn with
  | ind n ih =>
    by_cases hn : n < 10
    · exact ⟨_, [], Nat.toDigits_of_lt_base hn, by rwa [digitValue_digitChar hn]⟩
    · obtain ⟨d, ds, hdigits, hd⟩ := ih (n / 10) (by omega) (by omega)
      refine ⟨d, ds ++ [(n % 10).digitChar], ?_, hd⟩
      rw [Nat.toDigits_of_base_le (by omega) (by omega), hdigits]
      rfl

theorem isDigit_of_mem_toDigits {n : Nat} : ∀ c ∈ Nat.toDigits 10 n, c.isDigit :=
  fun _ hc => Nat.isDigit_of_mem_toDigits (by omega) (by omega) hc

theorem digits?_toDigits (n : Nat) :
    digits? (Nat.toDigits 10 n) = some ((Nat.toDigits 10 n).map digitValue, []) := by
  have htake : (Nat.toDigits 10 n).takeWhile Char.isDigit = Nat.toDigits 10 n :=
    List.takeWhile_eq_self_iff.2 isDigit_of_mem_toDigits
  have hdrop : (Nat.toDigits 10 n).dropWhile Char.isDigit = [] :=
    List.dropWhile_eq_nil_iff.2 isDigit_of_mem_toDigits
  rw [digits?, htake, hdrop]
  split
  · next hnil => exact absurd hnil Nat.toDigits_ne_nil
  · rfl

theorem whole?_toDigits (n : Nat) :
    whole? (Nat.toDigits 10 n) = some ((Nat.toDigits 10 n).map digitValue, []) := by
  rw [whole?, digits?_toDigits]
  split
  · next second rest left hleading =>
    rcases Nat.eq_zero_or_pos n with rfl | hn
    · cases hleading
    · obtain ⟨d, ds, hdigits, hd⟩ := exists_toDigits hn
      simp only [hdigits, List.map_cons, Option.some.injEq, Prod.mk.injEq,
        List.cons.injEq] at hleading
      omega
  · rfl

theorem unsigned?_toDigits (negative : Bool) (n : Nat) :
    unsigned? negative (Nat.toDigits 10 n) =
      some ⟨negative, (Nat.toDigits 10 n).map digitValue, none, none⟩ := by
  rw [unsigned?, whole?_toDigits]
  rfl

theorem le_foldl_digits (ds : List Nat) (start : Nat) :
    start ≤ ds.foldl (fun n d => 10 * n + d) start := by
  induction ds generalizing start with
  | nil => exact le_refl start
  | cons d ds ih => exact le_trans (by omega) (ih (10 * start + d))

/-- No digit is left over as long as the number fits. -/
theorem significand_of_lt {ds : List Nat} {start : Nat}
    (h : ds.foldl (fun n d => 10 * n + d) start < 0x10000000000000000) :
    significand start ds = (ds.foldl (fun n d => 10 * n + d) start, []) := by
  induction ds generalizing start with
  | nil => rfl
  | cons d ds ih =>
    have hstart := le_foldl_digits ds (10 * start + d)
    rw [List.foldl_cons] at h ⊢
    rw [significand, Nat.mul_comm, if_pos (by omega), ih h]

theorem significand_toDigits {n : Nat} (h : n < 0x10000000000000000) :
    significand 0 ((Nat.toDigits 10 n).map digitValue) = (n, []) := by
  have hvalue : ((Nat.toDigits 10 n).map digitValue).foldl (fun n d => 10 * n + d) 0 = n := by
    rw [List.foldl_map]
    exact Nat.ofDigitChars_eq_foldl.symm.trans Nat.ofDigitChars_ten_toDigits
  rw [significand_of_lt (by rwa [hvalue]), hvalue]

theorem number?_toDigits (negative : Bool) {n : Nat} (h : n < 0x10000000000000000) :
    (⟨negative, (Nat.toDigits 10 n).map digitValue, none, none⟩ : Numeral).number? =
      integer? negative n := by
  simp only [number?, significand_toDigits h]

/-- The number that is read from the characters of a numeral. -/
def read? (chars : List Char) : Option Number := (ofChars? chars).bind number?

theorem ofChars?_toDigits (n : Nat) :
    ofChars? (Nat.toDigits 10 n) =
      some ⟨false, (Nat.toDigits 10 n).map digitValue, none, none⟩ := by
  rw [ofChars?_of_ne, unsigned?_toDigits]
  intro rest hminus
  have hdigit : '-'.isDigit := isDigit_of_mem_toDigits (n := n) '-' (by simp [hminus])
  cases hdigit

theorem toList_ofNat (n : Nat) : (toString (Int.ofNat n)).toList = Nat.toDigits 10 n := by
  change (Nat.repr n).toList = _
  rw [Nat.repr_eq_ofList_toDigits, String.toList_ofList]

theorem toList_negSucc (n : Nat) :
    (toString (Int.negSucc n)).toList = '-' :: Nat.toDigits 10 (n + 1) := by
  change ("-" ++ Nat.repr (n + 1)).toList = _
  rw [Nat.repr_eq_ofList_toDigits]
  simp

theorem ofChars?_integer (n : Int) : ofChars? (toString n).toList =
    some ⟨decide (n < 0), (Nat.toDigits 10 n.natAbs).map digitValue, none, none⟩ := by
  cases n with
  | ofNat n => exact (congrArg ofChars? (toList_ofNat n)).trans (ofChars?_toDigits n)
  | negSucc n =>
    rw [toList_negSucc, ofChars?_minus, unsigned?_toDigits, Int.natAbs_negSucc,
      decide_eq_true (Int.negSucc_lt_zero n)]

/-- An integer is read back from its text. -/
theorem read?_integer (n : Int64) : read? (toString n.toInt).toList = some (.integer n) := by
  have hlow := n.le_toInt
  have hhigh := n.toInt_lt
  rw [read?, ofChars?_integer, Option.bind_some, number?_toDigits _ (by omega)]
  cases hn : n.toInt with
  | ofNat k =>
    rw [Int.ofNat_eq_natCast] at hn
    have hk : k < 0x8000000000000000 := by omega
    have hback : Int64.ofNat k = n := by
      rw [← Int64.ofInt_eq_ofNat, ← hn, Int64.ofInt_toInt]
    have hword : (UInt64.ofNat k).toNat = k :=
      UInt64.toNat_ofNat_of_lt' (lt_trans hk (by decide))
    have hsign : decide (Int.ofNat k < 0) = false := decide_eq_false (by simp)
    simp only [hsign, Int.natAbs, integer?, Bool.not_false, if_true, Number.ofUInt64, hword]
    rw [dif_neg (by omega), hback]
  | negSucc k =>
    rw [Int.negSucc_eq] at hn
    have hback : Int64.ofInt (-((k + 1 : Nat) : Int)) = n :=
      (congrArg Int64.ofInt hn).symm.trans (Int64.ofInt_toInt n)
    have hsign : decide (Int.negSucc k < 0) = true := decide_eq_true (Int.negSucc_lt_zero k)
    simp only [hsign, Int.natAbs, integer?, Bool.not_true, Bool.false_eq_true, if_false]
    rw [if_neg (by omega), hback]

/-! ## Doubles -/

theorem float?_eq_some {negative : Bool} {significand : Nat} {exponent : Int} {n : Number}
    (h : float? negative significand exponent = some n) : ∃ x hx, n = .float x hx := by
  obtain ⟨x, -, hx⟩ := Option.bind_eq_some_iff.1 h
  generalize (if negative then x.neg else x) = y at hx
  unfold Number.ofFinite? at hx
  split at hx
  · cases hx
    exact ⟨_, _, rfl⟩
  · cases hx

/-- A numeral with a fraction or an exponent is no integer. -/
theorem exists_float_of_number? {m : Numeral} {n : Number}
    (hparts : m.fraction = none → m.exponent ≠ none) (h : m.number? = some n) :
    ∃ x hx, n = .float x hx := by
  unfold number? at h
  split at h
  · next hfraction hexponent => exact absurd hexponent (hparts hfraction)
  · exact float?_eq_some h

end ObjectGraph.Json.Numeral

namespace ObjectGraph

open Json (Numeral Number)

namespace Decimal

theorem point_mem_positionalText {layout : Layout} (h : layout.pointZero = true)
    (digits : List Char) (point : Int) : '.' ∈ (layout.positionalText digits point).toList := by
  rw [Layout.positionalText, if_pos h]
  split
  · simp
  · split <;> simp

theorem exponent_mem_exponentText (layout : Layout) (digits : List Char) (exponent : Int) :
    'e' ∈ (layout.exponentText digits exponent).toList := by
  simp [Layout.exponentText]

theorem point_or_exponent_mem_decimalText {layout : Layout} (h : layout.pointZero = true)
    (d : Decimal) : '.' ∈ (layout.decimalText d).toList ∨ 'e' ∈ (layout.decimalText d).toList := by
  simp only [Layout.decimalText]
  split
  · exact .inl (point_mem_positionalText h _ _)
  · exact .inr (exponent_mem_exponentText _ _ _)

theorem isFinite_cases {x : Binary64} (h : x.isFinite = true) :
    x.isNaN = false ∧ x.isInfinite = false := by
  simp only [Binary64.isFinite, ne_eq, decide_not, Bool.not_eq_true',
    decide_eq_false_iff_not] at h
  simp [Binary64.isNaN, Binary64.isInfinite, h]

theorem isFinite_of_cases {x : Binary64} (hnan : ¬ x.isNaN = true)
    (hinfinite : ¬ x.isInfinite = true) : x.isFinite = true := by
  by_contra hfinite
  have hfield : x.exponentField = 2047 := by simpa [Binary64.isFinite] using hfinite
  by_cases hfraction : x.fraction = 0
  · exact hinfinite (by simp [Binary64.isInfinite, hfield, hfraction])
  · exact hnan (by simp [Binary64.isNaN, hfield, hfraction])

/-- The text of a finite double has a point or an exponent. -/
theorem point_or_exponent_mem_text {layout : Layout} (hpoint : layout.pointZero = true)
    {x : Binary64} (h : x.isFinite = true) :
    '.' ∈ (layout.text x).toList ∨ 'e' ∈ (layout.text x).toList := by
  simp only [Layout.text, isFinite_cases h, Bool.false_eq_true, if_false, hpoint, if_true,
    String.toList_append, List.mem_append]
  by_cases hzero : x.isZero
  · rw [if_pos hzero]
    exact .inl (.inr (by decide))
  · rw [if_neg hzero]
    rcases point_or_exponent_mem_decimalText hpoint (shortest layout.tie x) with hmem | hmem
    · exact .inl (.inr hmem)
    · exact .inr (.inr hmem)

/-- So the numeral that it is read as is no whole one. -/
theorem fraction_or_exponent {layout : Layout} (hpoint : layout.pointZero = true) {x : Binary64}
    (h : x.isFinite = true) {m : Numeral}
    (hm : Numeral.ofChars? (layout.text x).toList = some m) :
    m.fraction = none → m.exponent ≠ none := by
  intro hfraction hexponent
  obtain ⟨sign, whole, rest, htext, hsign, -, hwhole, -, hrest⟩ := Numeral.exists_of_ofChars? hm
  have hdigits : ∀ c ∈ (layout.text x).toList, c = '-' ∨ c.isDigit := by
    intro c hc
    rw [htext, hrest hfraction hexponent, List.append_nil, List.mem_append] at hc
    rcases hc with hc | hc
    · rcases hsign with rfl | rfl
      · cases hc
      · exact .inl (List.mem_singleton.1 hc)
    · exact .inr (hwhole c hc)
  rcases point_or_exponent_mem_text hpoint h with hmem | hmem
  · exact absurd (hdigits _ hmem) (by decide)
  · exact absurd (hdigits _ hmem) (by decide)

end Decimal

namespace Json

/-- The number as a double. -/
def Number.toBinary64 : Number → Binary64
  | .integer n => Binary64.ofRatio (n.toInt < 0) n.toInt.natAbs 1
  | .large n _ => Binary64.ofNat n.toNat
  | .float x _ => x

end Json

/-- The number that is read from the text of the double is the double. -/
def Binary64.ReadsBack (x : Binary64) : Prop :=
  (Numeral.read? (Decimal.json.text x).toList).map Number.toBinary64 = some x

instance (x : Binary64) : Decidable x.ReadsBack :=
  inferInstanceAs (Decidable (_ = _))

namespace Json.Numeral

/-- A finite double comes back as a double, even where it is whole. -/
theorem read?_float {x : Binary64} (hfinite : x.isFinite = true) (h : x.ReadsBack) :
    read? (Decimal.json.text x).toList = some (.float x hfinite) := by
  obtain ⟨n, hread, hn⟩ := Option.map_eq_some_iff.1 h
  obtain ⟨m, hm, hnumber⟩ := Option.bind_eq_some_iff.1 hread
  have hparts := Decimal.fraction_or_exponent rfl hfinite hm
  obtain ⟨y, hy, rfl⟩ := exists_float_of_number? hparts hnumber
  cases hn
  exact hread

end Json.Numeral
end ObjectGraph
