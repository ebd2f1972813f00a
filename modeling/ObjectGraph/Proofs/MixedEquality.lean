import ObjectGraph.Proofs.DecimalRounding
import ObjectGraph.Value.Equality

/-!
# Integers beside doubles

An integer is compared with the decimal of a double, which is the double itself where that is
whole and a rounding of it where it is a fraction. So the comparison is exact except between an
integer and a fraction near it.
-/
namespace ObjectGraph

namespace Binary64

open Decimal

variable {x : Binary64}

/-- A number between two integers. -/
def IsFraction (x : Binary64) : Prop := ∀ k : Int, x.toRat ≠ k

/-- A fraction so near the integer that its decimal may be the integer. -/
def IsNear (x : Binary64) (n : Int) : Prop :=
  x.IsFraction ∧ |x.toRat - n| < max (19 / (2 * 10 ^ 29)) (|(n : ℚ)| / 2 ^ 49)

/-- The integer to compare with the absolute value in place of the double. -/
def unsigned (x : Binary64) (n : Int) : Int := if x.negative then -n else n

theorem toRat_eq_iff {n : Int} : x.toRat = n ↔ x.magnitude = x.unsigned n := by
  unfold toRat unsigned
  split
  · push_cast
    exact neg_eq_iff_eq_neg
  · rfl

theorem abs_toRat_sub (x : Binary64) (n : Int) :
    |x.toRat - n| = |x.magnitude - x.unsigned n| := by
  unfold toRat unsigned
  split
  · rw [← abs_neg]
    push_cast
    ring_nf
  · rfl

theorem abs_unsigned (x : Binary64) (n : Int) : |(x.unsigned n : ℚ)| = |(n : ℚ)| := by
  unfold unsigned
  split
  · push_cast
    exact abs_neg _
  · rfl

theorem unsigned_unsigned (x : Binary64) (n : Int) : x.unsigned (x.unsigned n) = n := by
  unfold unsigned
  split <;> simp

theorem exists_magnitude_eq (h : ∃ k : Int, x.toRat = k) : ∃ q : Nat, x.magnitude = q := by
  obtain ⟨k, hk⟩ := h
  refine ⟨k.natAbs, ?_⟩
  rw [← x.abs_toRat, hk, Nat.cast_natAbs, Int.cast_abs]

theorem magnitude_of_exponent_nonneg (h : 0 ≤ x.exponent) :
    x.magnitude = (x.significand * 2 ^ x.exponent.toNat : Nat) := by
  rw [magnitude]
  push_cast
  rw [← zpow_natCast, Int.toNat_of_nonneg h]

theorem toRat_of_negative_exponent {m k : Nat} (hnegative : x.negative = false)
    (hsignificand : x.significand = m) (hexponent : x.exponent = -(k : Int)) :
    x.toRat = m / (2 ^ k : Nat) := by
  rw [toRat, magnitude, hnegative, hsignificand, hexponent, zpow_neg, zpow_natCast]
  push_cast
  exact (div_eq_mul_inv _ _).symm

theorem isFraction_of_not_dvd {p q : Nat} (hx : x.toRat = p / q) (hq : 0 < q) (h : ¬ q ∣ p) :
    x.IsFraction := by
  intro k hk
  have hne : (q : ℚ) ≠ 0 := by exact_mod_cast hq.ne'
  rw [hx, div_eq_iff hne] at hk
  have hproduct : (p : Int) = k * q := by exact_mod_cast hk
  exact h (Int.natCast_dvd_natCast.1 ⟨k, by rw [hproduct, mul_comm]⟩)

theorem IsFraction.exponent_neg (h : x.IsFraction) : x.exponent < 0 := by
  by_contra hneg
  refine h (x.unsigned (x.significand * 2 ^ x.exponent.toNat : Nat)) ?_
  rw [toRat_eq_iff, unsigned_unsigned, magnitude_of_exponent_nonneg (by omega)]
  rfl

theorem IsFraction.isZero (h : x.IsFraction) : x.isZero = false := by
  by_contra hzero
  have hsignificand : x.significand = 0 := x.isZero_iff.1 (by simpa using hzero)
  refine h 0 ?_
  simp [toRat, magnitude, hsignificand]

theorem IsFraction.magnitude_pos (h : x.IsFraction) : 0 < x.magnitude := by
  have hsignificand : 0 < x.significand := by
    refine Nat.pos_of_ne_zero fun hzero => ?_
    rw [← x.isZero_iff, h.isZero] at hzero
    cases hzero
  unfold magnitude
  positivity

theorem IsFraction.magnitude_lt (h : x.IsFraction) : x.magnitude < 2 ^ 52 := by
  have hsignificand : (x.significand : ℚ) < 2 ^ 53 := by exact_mod_cast x.significand_lt
  have hhalf : (2 : ℚ) ^ x.exponent ≤ 2 ^ (-1 : Int) := by
    have hexponent := h.exponent_neg
    exact zpow_le_zpow_right₀ (by norm_num) (by omega)
  calc x.magnitude
    _ ≤ x.significand * 2 ^ (-1 : Int) := by
      unfold magnitude
      gcongr
    _ < 2 ^ 52 := by
      have hvalue : (2 : ℚ) ^ (-1 : Int) = 1 / 2 := by norm_num
      rw [hvalue]
      linarith

theorem IsFraction.rounded_cases (h : x.IsFraction) :
    Fixed.rounded (Fixed.halved x) = ⟨0, 0⟩ ∧ 9 * (Fixed.halved x).toRat ≤ 85 / 10 ^ 29 ∨
      Fixed.Rounding (Fixed.halved x) (Fixed.rounded (Fixed.halved x)) ∧
        85 / 10 ^ 29 ≤ 9 * (Fixed.halved x).toRat := by
  refine Fixed.rounded_cases (Fixed.halved_exponent_le h.exponent_neg) ?_
  have hlower := (Fixed.halved_toRat h.exponent_neg).1
  have hpos := h.magnitude_pos
  norm_num at hlower
  linarith

end Binary64

namespace Decimal.Fixed

variable {x : Binary64}

/-- The decimal of a whole double is that double, unless it is out of range. -/
theorem ofBinary64?_of_whole (hfinite : x.isFinite = true) {q : Nat} (hq : x.magnitude = q) :
    ofBinary64? x = some ⟨q, 0⟩ ∨ ofBinary64? x = none ∧ limit ≤ q := by
  by_cases hzero : x.isZero = true
  · have hvalue : q = 0 := by
      rw [Binary64.magnitude, x.isZero_iff.1 hzero] at hq
      simpa using hq.symm
    left
    unfold ofBinary64?
    rw [hfinite, hzero, hvalue]
    rfl
  by_cases hexponent : 0 ≤ x.exponent
  · have hvalue : x.significand * 2 ^ x.exponent.toNat = q := by
      rw [Binary64.magnitude_of_exponent_nonneg hexponent] at hq
      exact_mod_cast hq
    rw [← hvalue]
    exact ofBinary64?_of_exponent_nonneg hfinite hexponent
  · obtain ⟨count, hcount⟩ : ∃ count : Nat, x.exponent = -(count : Int) :=
      ⟨(-x.exponent).toNat, by omega⟩
    have hvalue : x.significand = q * 2 ^ count := by
      rw [Binary64.magnitude, hcount, zpow_neg, zpow_natCast, ← div_eq_mul_inv,
        div_eq_iff (by positivity)] at hq
      exact_mod_cast hq
    have hhalved : halved x = ⟨q, 0⟩ := by
      have htoNat : (-x.exponent).toNat = count := by omega
      rw [halved, htoNat, hvalue, absorbHalves_mul_pow, hcount, neg_add_cancel]
    left
    rw [ofBinary64?_of_exponent_neg hfinite (by simpa using hzero) (by omega), hhalved]
    rfl

end Decimal.Fixed

namespace Value

open Decimal

variable {x : Binary64} {n : Int64}

theorem integerEqualsFloat_iff {d : Fixed} (hd : Fixed.ofBinary64? x = some d)
    (hexponent : d.exponent ≤ 0) :
    integerEqualsFloat n x = true ↔ d.toRat = x.unsigned n.toInt := by
  rw [integerEqualsFloat, hd]
  exact Fixed.isInteger_iff hexponent x.negative n.toInt

/-- Beside a whole double the comparison is exact. -/
theorem integerEqualsFloat_of_whole (hfinite : x.isFinite = true) (h : ∃ k : Int, x.toRat = k) :
    integerEqualsFloat n x = true ↔ x.toRat = n.toInt := by
  obtain ⟨q, hq⟩ := Binary64.exists_magnitude_eq h
  obtain hfound | ⟨hnone, hlarge⟩ := Fixed.ofBinary64?_of_whole hfinite hq
  · have hvalue : Fixed.toRat ⟨q, 0⟩ = x.magnitude := by simp [Fixed.toRat, hq]
    rw [integerEqualsFloat_iff hfound le_rfl, hvalue, Binary64.toRat_eq_iff]
  · rw [integerEqualsFloat, hnone]
    refine iff_of_false Bool.false_ne_true fun hn => ?_
    have habs : (n.toInt.natAbs : ℚ) = q := by
      rw [← hq, ← x.abs_toRat, hn, Nat.cast_natAbs, Int.cast_abs]
    have hsame : n.toInt.natAbs = q := by exact_mod_cast habs
    have hlower := n.le_toInt
    have hupper := n.toInt_lt
    unfold Fixed.limit at hlarge
    omega

/-- Beside a fraction the comparison is with what is left of its digits. -/
theorem integerEqualsFloat_of_fraction (hfinite : x.isFinite = true) (h : x.IsFraction) :
    integerEqualsFloat n x = true ↔
      (Fixed.rounded (Fixed.halved x)).toRat = x.unsigned n.toInt := by
  have hexponent : (Fixed.rounded (Fixed.halved x)).exponent ≤ 0 := by
    obtain ⟨hlost, -⟩ | ⟨hrounding, -⟩ := h.rounded_cases
    · rw [hlost]
    · exact hrounding.exponent
  have htrimmed := Fixed.trimZeros_exponent_le (Fixed.rounded (Fixed.halved x)).places
    (Fixed.rounded (Fixed.halved x))
  have hplaces : (Fixed.rounded (Fixed.halved x)).places =
      (-(Fixed.rounded (Fixed.halved x)).exponent).toNat := rfl
  rw [integerEqualsFloat_iff
    (Fixed.ofBinary64?_of_exponent_neg hfinite h.isZero h.exponent_neg) (by omega),
    Fixed.trimZeros_toRat]

/-- An integer that equals a fraction is near it. -/
theorem isNear_of_integerEqualsFloat (hfinite : x.isFinite = true) (h : x.IsFraction)
    (hequal : integerEqualsFloat n x = true) : x.IsNear n.toInt := by
  rw [integerEqualsFloat_of_fraction hfinite h] at hequal
  obtain ⟨hlower, hupper⟩ := Fixed.halved_toRat h.exponent_neg
  refine ⟨h, ?_⟩
  rw [x.abs_toRat_sub, ← x.abs_unsigned n.toInt]
  set k := x.unsigned n.toInt
  obtain ⟨hlost, hsmall⟩ | ⟨hrounding, -⟩ := h.rounded_cases
  · -- The digits were lost below the 28th place, so only zero is equal.
    have hzero : (k : ℚ) = 0 := by
      rw [← hequal, hlost]
      simp [Fixed.toRat]
    apply lt_max_of_lt_left
    rw [hzero, sub_zero, abs_of_nonneg x.magnitude_nonneg]
    norm_num at hlower hsmall ⊢
    linarith
  · obtain ⟨N, hN⟩ : ∃ N : Nat, k = N := by
      have hnonneg : (0 : ℚ) ≤ k := by
        rw [← hequal]
        exact Fixed.toRat_nonneg _
      exact Int.eq_ofNat_of_zero_le (by exact_mod_cast hnonneg)
    rw [hN, Int.cast_natCast] at hequal ⊢
    obtain ⟨hone, hclose⟩ := hrounding.integer hequal
    have hone' : (1 : ℚ) ≤ N := by exact_mod_cast hone
    apply lt_max_of_lt_right
    rw [Nat.abs_cast]
    rw [abs_le] at hclose
    obtain ⟨hbelow, habove⟩ := hclose
    rw [abs_lt]
    constructor <;> linarith

/-- Below the 28th place every fraction equals zero. -/
theorem integerEqualsFloat_zero (hfinite : x.isFinite = true) (h : x.IsFraction)
    (hsmall : |x.toRat| ≤ 47 / (5 * 10 ^ 29)) : integerEqualsFloat 0 x = true := by
  rw [integerEqualsFloat_of_fraction hfinite h]
  rw [x.abs_toRat] at hsmall
  obtain ⟨-, hupper⟩ := Fixed.halved_toRat h.exponent_neg
  obtain ⟨hlost, -⟩ | ⟨-, hlarge⟩ := h.rounded_cases
  · rw [hlost]
    simp [Fixed.toRat, Binary64.unsigned]
  · exfalso
    norm_num at hsmall hlarge
    linarith

/-- From `2 ^ 49` on every fraction equals an integer. -/
theorem exists_integerEqualsFloat (hfinite : x.isFinite = true) (h : x.IsFraction)
    (hlarge : 2 ^ 49 ≤ |x.toRat|) : ∃ n, integerEqualsFloat n x = true := by
  rw [x.abs_toRat] at hlarge
  obtain ⟨hlower, hupper⟩ := Fixed.halved_toRat h.exponent_neg
  have hstart : 2 ^ 49 - 1 ≤ (Fixed.halved x).toRat := by
    norm_num at hlower hlarge ⊢
    linarith
  obtain ⟨-, hsmall⟩ | ⟨hrounding, -⟩ := h.rounded_cases
  · exfalso
    norm_num at hsmall hstart
    linarith
  · have hexponent := hrounding.exponent_eq_zero hstart
    set r := Fixed.rounded (Fixed.halved x)
    have hvalue : r.toRat = r.coefficient := by rw [Fixed.toRat, hexponent, zpow_zero, mul_one]
    have hbound : r.coefficient < 2 ^ 53 := by
      have herror := hrounding.upper
      rw [hvalue, hexponent, zpow_zero] at herror
      have hmagnitude := h.magnitude_lt
      have hcast : (r.coefficient : ℚ) < 2 ^ 53 := by linarith
      exact_mod_cast hcast
    have hrange : -2 ^ 63 ≤ x.unsigned r.coefficient ∧ x.unsigned r.coefficient < 2 ^ 63 := by
      unfold Binary64.unsigned
      split <;> omega
    refine ⟨Int64.ofInt (x.unsigned r.coefficient), ?_⟩
    rw [integerEqualsFloat_of_fraction hfinite h, hvalue,
      Int64.toInt_ofInt_of_le hrange.1 hrange.2, Binary64.unsigned_unsigned]
    rfl

end Value

/-- An integer and a double are equal, in either order, exactly when the double is finite and has
that value, unless the double is a fraction near the integer. There are such fractions that equal
an integer: all below the 28th place equal zero, and each from `2 ^ 49` on equals some integer. -/
theorem mixed_equality_exact_or_near (n : Int64) (x : Binary64) :
    (Value.float x).equals (.integer n) = (Value.integer n).equals (.float x) ∧
      (¬ x.IsNear n.toInt → ((Value.integer n).equals (.float x) = true ↔
        x.isFinite = true ∧ x.toRat = n.toInt)) ∧
      (x.isFinite = true → x.IsFraction → |x.toRat| ≤ 47 / (5 * 10 ^ 29) →
        (Value.integer 0).equals (.float x) = true) ∧
      (x.isFinite = true → x.IsFraction → 2 ^ 49 ≤ |x.toRat| →
        ∃ m, (Value.integer m).equals (.float x) = true) := by
  refine ⟨rfl, ?_, Value.integerEqualsFloat_zero, Value.exists_integerEqualsFloat⟩
  intro hnear
  by_cases hfinite : x.isFinite = true
  · by_cases hwhole : ∃ k : Int, x.toRat = k
    · exact (Value.integerEqualsFloat_of_whole hfinite hwhole).trans (by simp [hfinite])
    · have hfraction : x.IsFraction := fun k hk => hwhole ⟨k, hk⟩
      refine iff_of_false (fun hequal => ?_) fun hexact => hfraction _ hexact.2
      exact hnear (Value.isNear_of_integerEqualsFloat hfinite hfraction hequal)
  · refine iff_of_false (fun hequal => ?_) fun hexact => hfinite hexact.1
    have hnone : Decimal.Fixed.ofBinary64? x = none := by simp [Decimal.Fixed.ofBinary64?, hfinite]
    change Value.integerEqualsFloat n x = true at hequal
    rw [Value.integerEqualsFloat, hnone] at hequal
    cases hequal

/-- The double nearest to `10 ^ -30` is not zero, but equals it. -/
theorem mixed_equality_confuses_tiny_fraction :
    let x : Binary64 := ⟨0x39b4484bfeebc2a0⟩
    x.isFinite = true ∧ x.toRat ≠ 0 ∧ (Value.integer 0).equals (.float x) = true := by
  intro x
  have hvalue : x.toRat = (5708990770823840 : Nat) / (2 ^ 152 : Nat) :=
    Binary64.toRat_of_negative_exponent (by decide) (by decide) (by decide)
  refine ⟨by decide, ?_, by decide +kernel⟩
  rw [hvalue]
  positivity

/-- Three and a half is not near three and does not equal it. A double below the 28th place equals
zero, and one three quarters above `2 ^ 50` equals some integer. -/
theorem mixed_equality_beside_fractions :
    let half : Binary64 := ⟨0x400c000000000000⟩
    let tiny : Binary64 := ⟨0x39b4484bfeebc2a0⟩
    let large : Binary64 := ⟨0x4310000000000003⟩
    (¬ half.IsNear 3 ∧ (Value.integer 3).equals (.float half) = false) ∧
      (Value.integer 0).equals (.float tiny) = true ∧
      ∃ m, (Value.integer m).equals (.float large) = true := by
  intro half tiny large
  have hhalf : half.toRat = (7881299347898368 : Nat) / (2 ^ 51 : Nat) :=
    Binary64.toRat_of_negative_exponent (by decide) (by decide) (by decide)
  have htiny : tiny.toRat = (5708990770823840 : Nat) / (2 ^ 152 : Nat) :=
    Binary64.toRat_of_negative_exponent (by decide) (by decide) (by decide)
  have hlarge : large.toRat = (4503599627370499 : Nat) / (2 ^ 2 : Nat) :=
    Binary64.toRat_of_negative_exponent (by decide) (by decide) (by decide)
  have hnear : ¬ half.IsNear 3 := by
    rintro ⟨-, hclose⟩
    rw [hhalf] at hclose
    norm_num at hclose
  refine ⟨⟨hnear, ?_⟩, ?_, ?_⟩
  · rw [Bool.eq_false_iff]
    intro hequal
    obtain ⟨-, hexact⟩ := ((mixed_equality_exact_or_near 3 half).2.1 hnear).1 hequal
    rw [hhalf, show (3 : Int64).toInt = 3 from rfl] at hexact
    norm_num at hexact
  · refine (mixed_equality_exact_or_near 0 tiny).2.2.1 (by decide)
      (Binary64.isFraction_of_not_dvd htiny (by decide) (by decide)) ?_
    rw [htiny]
    norm_num
  · refine (mixed_equality_exact_or_near 0 large).2.2.2 (by decide)
      (Binary64.isFraction_of_not_dvd hlarge (by decide) (by decide)) ?_
    rw [hlarge]
    norm_num

end ObjectGraph
