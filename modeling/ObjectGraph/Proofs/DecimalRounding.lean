import Mathlib.Algebra.Order.Field.Power
import Mathlib.Algebra.Order.Ring.Pow
import Mathlib.Tactic.FieldSimp
import Mathlib.Tactic.Linarith
import Mathlib.Tactic.Positivity
import Mathlib.Tactic.Ring
import ObjectGraph.Decimal.Fixed

/-!
# How far a decimal is from its double

A double whose value is whole has that value as its decimal. A fraction loses a little when its
halves are absorbed and at most five ninths of a unit in the last place when digits are dropped.
Digits are dropped until the coefficient is below `2 ^ 52`, so a unit in the last place is small
beside the number itself, except for numbers that do not reach the 28th place.
-/
namespace ObjectGraph

namespace Binary64

/-- The absolute value of a finite double. -/
def magnitude (x : Binary64) : ℚ := x.significand * 2 ^ x.exponent

/-- The exact value of a finite double. -/
def toRat (x : Binary64) : ℚ := if x.negative then -x.magnitude else x.magnitude

theorem significand_lt (x : Binary64) : x.significand < 2 ^ 53 := by
  have hfraction : x.fraction < 0x10000000000000 := Nat.mod_lt _ (by decide)
  unfold significand
  split <;> omega

theorem neg_exponent_le (x : Binary64) : (-x.exponent).toNat ≤ 1074 := by
  unfold exponent
  split <;> omega

theorem isZero_iff (x : Binary64) : x.isZero = true ↔ x.significand = 0 := by
  unfold isZero significand
  by_cases h : x.exponentField = 0 <;> simp [h]

theorem magnitude_nonneg (x : Binary64) : 0 ≤ x.magnitude := by
  unfold magnitude
  positivity

theorem abs_toRat (x : Binary64) : |x.toRat| = x.magnitude := by
  unfold toRat
  split
  · rw [abs_neg, abs_of_nonneg x.magnitude_nonneg]
  · rw [abs_of_nonneg x.magnitude_nonneg]

end Binary64

namespace Decimal.Fixed

/-- The decimal as a number. -/
def toRat (d : Fixed) : ℚ := d.coefficient * 10 ^ d.exponent

theorem toRat_nonneg (d : Fixed) : 0 ≤ d.toRat := by
  unfold toRat
  positivity

theorem zpow_ten_succ (e : Int) : (10 : ℚ) ^ (e + 1) = 10 * 10 ^ e := by
  rw [zpow_add_one₀ (by norm_num : (10 : ℚ) ≠ 0), mul_comm]

/-! ## Factors of two -/

/-- One factor of one half. -/
def absorbHalf (d : Fixed) : Fixed :=
  if d.coefficient % 2 = 0 then ⟨d.coefficient / 2, d.exponent + 1⟩
  else if 5 * d.coefficient < limit then ⟨5 * d.coefficient, d.exponent⟩
  else ⟨d.coefficient / 2, d.exponent + 1⟩

theorem absorbHalves_succ (count : Nat) (d : Fixed) :
    absorbHalves (count + 1) d = absorbHalves count d.absorbHalf := rfl

theorem absorbHalf_exponent_le (d : Fixed) : d.absorbHalf.exponent ≤ d.exponent + 1 := by
  unfold absorbHalf
  split_ifs <;> simp only <;> omega

/-- The last bit is lost only when the coefficient is large. -/
theorem absorbHalf_cases (d : Fixed) :
    d.absorbHalf.toRat = 5 * d.toRat ∨
      2 ^ 93 ≤ d.coefficient ∧
        d.absorbHalf.toRat = 5 * (((d.coefficient : ℚ) - 1) * 10 ^ d.exponent) := by
  unfold absorbHalf
  split_ifs with heven hsmall
  · left
    have hb : (d.coefficient : ℚ) = 2 * (d.coefficient / 2 : Nat) := by
      have h : d.coefficient = 2 * (d.coefficient / 2) := by omega
      exact_mod_cast h
    rw [toRat, toRat, zpow_ten_succ, hb]
    ring
  · left
    rw [toRat, toRat]
    push_cast
    ring
  · right
    have hb : (d.coefficient : ℚ) = 2 * (d.coefficient / 2 : Nat) + 1 := by
      have h : d.coefficient = 2 * (d.coefficient / 2) + 1 := by omega
      exact_mod_cast h
    refine ⟨?_, ?_⟩
    · unfold limit at hsmall
      omega
    · rw [toRat, zpow_ten_succ, hb]
      ring

/-- One half is absorbed with a relative error of at most `2 ^ -93`. -/
theorem absorbHalf_toRat (d : Fixed) :
    (1 - 1 / 2 ^ 93) * (5 * d.toRat) ≤ d.absorbHalf.toRat ∧
      d.absorbHalf.toRat ≤ 5 * d.toRat := by
  have hnonneg := d.toRat_nonneg
  obtain hexact | ⟨hlarge, hlost⟩ := d.absorbHalf_cases
  · rw [hexact]
    constructor <;> linarith
  · have hlarge' : (2 : ℚ) ^ 93 ≤ d.coefficient := by exact_mod_cast hlarge
    have hbit : (1 - 1 / 2 ^ 93) * (d.coefficient : ℚ) ≤ d.coefficient - 1 := by linarith
    rw [hlost, toRat]
    constructor
    · calc (1 - 1 / 2 ^ 93) * (5 * ((d.coefficient : ℚ) * 10 ^ d.exponent))
        _ = 5 * ((1 - 1 / 2 ^ 93) * d.coefficient * (10 : ℚ) ^ d.exponent) := by ring
        _ ≤ 5 * ((d.coefficient - 1) * (10 : ℚ) ^ d.exponent) := by gcongr
    · gcongr
      linarith

/-- Whole numbers only get their point moved. -/
theorem absorbHalves_mul_pow (count q : Nat) (e : Int) :
    absorbHalves count ⟨q * 2 ^ count, e⟩ = ⟨q, e + count⟩ := by
  induction count generalizing e with
  | zero => simp [absorbHalves]
  | succ count ih =>
    have hdouble : q * 2 ^ (count + 1) = 2 * (q * 2 ^ count) := by ring
    have heven : q * 2 ^ (count + 1) % 2 = 0 := by omega
    have hhalf : q * 2 ^ (count + 1) / 2 = q * 2 ^ count := by omega
    rw [absorbHalves_succ, absorbHalf, if_pos heven, hhalf, ih]
    simp only [Fixed.mk.injEq, true_and]
    omega

theorem absorbHalves_exponent_le (count : Nat) (d : Fixed) :
    (absorbHalves count d).exponent ≤ d.exponent + count := by
  induction count generalizing d with
  | zero => simp [absorbHalves]
  | succ count ih =>
    have hfirst := d.absorbHalf_exponent_le
    have hrest := ih d.absorbHalf
    rw [absorbHalves_succ]
    omega

/-- The halves are absorbed with a relative error of at most `2 ^ -93` for each. -/
theorem absorbHalves_toRat (count : Nat) (d : Fixed) :
    (1 - 1 / 2 ^ 93) ^ count * (5 ^ count * d.toRat) ≤ (absorbHalves count d).toRat ∧
      (absorbHalves count d).toRat ≤ 5 ^ count * d.toRat := by
  induction count generalizing d with
  | zero => simp [absorbHalves]
  | succ count ih =>
    obtain ⟨hlower, hupper⟩ := d.absorbHalf_toRat
    obtain ⟨ihlower, ihupper⟩ := ih d.absorbHalf
    rw [absorbHalves_succ]
    constructor
    · refine le_trans ?_ ihlower
      calc (1 - 1 / 2 ^ 93) ^ (count + 1) * (5 ^ (count + 1) * d.toRat)
        _ = (1 - 1 / 2 ^ 93) ^ count * (5 ^ count * ((1 - 1 / 2 ^ 93) * (5 * d.toRat))) := by ring
        _ ≤ (1 - 1 / 2 ^ 93) ^ count * (5 ^ count * d.absorbHalf.toRat) := by gcongr
    · refine ihupper.trans ?_
      calc 5 ^ count * d.absorbHalf.toRat
        _ ≤ 5 ^ count * (5 * d.toRat) := by gcongr
        _ = 5 ^ (count + 1) * d.toRat := by ring

/-- A double once all its halves are absorbed. -/
def halved (x : Binary64) : Fixed := absorbHalves (-x.exponent).toNat ⟨x.significand, x.exponent⟩

theorem halved_exponent_le {x : Binary64} (hneg : x.exponent < 0) : (halved x).exponent ≤ 0 := by
  have hle : (halved x).exponent ≤ x.exponent + (-x.exponent).toNat := absorbHalves_exponent_le _ _
  omega

/-- At most 1074 halves are absorbed, each with a relative error of `2 ^ -93`. -/
theorem halved_toRat {x : Binary64} (hneg : x.exponent < 0) :
    (1 - 1 / 2 ^ 82) * x.magnitude ≤ (halved x).toRat ∧ (halved x).toRat ≤ x.magnitude := by
  obtain ⟨count, hcount⟩ : ∃ count : Nat, x.exponent = -(count : Int) :=
    ⟨(-x.exponent).toNat, by omega⟩
  have htoNat : (-x.exponent).toNat = count := by omega
  have hbound : (count : ℚ) ≤ 1074 := by
    have hle := x.neg_exponent_le
    rw [htoNat] at hle
    exact_mod_cast hle
  have hstart : (5 : ℚ) ^ count * toRat ⟨x.significand, x.exponent⟩ = x.magnitude := by
    rw [toRat, Binary64.magnitude, hcount, zpow_neg, zpow_neg, zpow_natCast, zpow_natCast,
      show (10 : ℚ) = 5 * 2 by norm_num, mul_pow]
    field_simp
  obtain ⟨hlower, hupper⟩ := absorbHalves_toRat count ⟨x.significand, x.exponent⟩
  rw [hstart] at hlower hupper
  rw [halved, htoNat]
  refine ⟨le_trans ?_ hlower, hupper⟩
  -- By Bernoulli's inequality 1074 losses of `2 ^ -93` stay below one of `2 ^ -82`.
  have hbernoulli : 1 + (count : ℚ) * (-(1 / 2 ^ 93)) ≤ (1 + -(1 / 2 ^ 93)) ^ count :=
    one_add_mul_le_pow (by norm_num) count
  have hfactor : (1 : ℚ) - 1 / 2 ^ 82 ≤ (1 - 1 / 2 ^ 93) ^ count := by
    rw [← sub_eq_add_neg] at hbernoulli
    refine le_trans ?_ hbernoulli
    linarith
  exact mul_le_mul_of_nonneg_right hfactor x.magnitude_nonneg

/-- Doubling either reaches the number itself or runs into the largest coefficient. -/
theorem absorbDoubles_natCast (count b : Nat) :
    absorbDoubles count ⟨b, count⟩ = some ⟨b * 2 ^ count, 0⟩ ∨
      absorbDoubles count ⟨b, count⟩ = none ∧ limit ≤ b * 2 ^ count := by
  induction count generalizing b with
  | zero => simp [absorbDoubles]
  | succ count ih =>
    have hpower : b * 2 ^ (count + 1) = 2 * b * 2 ^ count := by ring
    rw [absorbDoubles]
    split_ifs with hsmall hstop
    · have hexponent : ((count + 1 : Nat) : Int) - 1 = count := by omega
      rw [hexponent, hpower]
      exact ih (2 * b)
    · refine .inr ⟨rfl, ?_⟩
      have hpos : 1 ≤ 2 ^ count := Nat.one_le_two_pow
      have hgrow : 2 * b ≤ 2 * b * 2 ^ count := Nat.le_mul_of_pos_right _ hpos
      unfold limit at hsmall ⊢
      omega
    · omega

/-! ## Dropped digits -/

theorem dropDigit_exponent (d : Fixed) : d.dropDigit.exponent = d.exponent + 1 := rfl

theorem dropDigit_coefficient (d : Fixed) :
    d.coefficient ≤ 10 * d.dropDigit.coefficient + 4 ∧
      10 * d.dropDigit.coefficient ≤ d.coefficient + 5 := by
  unfold dropDigit
  split_ifs <;> simp only <;> omega

/-- A digit is dropped upward from five on, so by at most half a unit in the new last place. -/
theorem dropDigit_toRat (d : Fixed) :
    10 * d.toRat ≤ 10 * d.dropDigit.toRat + 4 * 10 ^ (d.exponent + 1) ∧
      10 * d.dropDigit.toRat ≤ 10 * d.toRat + 5 * 10 ^ (d.exponent + 1) := by
  obtain ⟨hlower, hupper⟩ := d.dropDigit_coefficient
  have hlower' : (d.coefficient : ℚ) ≤ 10 * d.dropDigit.coefficient + 4 := by
    exact_mod_cast hlower
  have hupper' : 10 * (d.dropDigit.coefficient : ℚ) ≤ d.coefficient + 5 := by
    exact_mod_cast hupper
  have hunit : (0 : ℚ) < 10 ^ d.exponent := by positivity
  rw [toRat, toRat, dropDigit_exponent, zpow_ten_succ]
  constructor <;> nlinarith

theorem iterate_dropDigit_exponent (count : Nat) (d : Fixed) :
    (dropDigit^[count] d).exponent = d.exponent + count := by
  induction count with
  | zero => simp
  | succ count ih =>
    rw [Function.iterate_succ_apply', dropDigit_exponent, ih]
    push_cast
    ring

/-- Digits dropped one by one are a rounding to within five ninths of a unit in the last place. -/
theorem iterate_dropDigit_toRat (count : Nat) (d : Fixed) :
    9 * d.toRat ≤ 9 * (dropDigit^[count] d).toRat + 4 * 10 ^ (d.exponent + count) ∧
      9 * (dropDigit^[count] d).toRat ≤ 9 * d.toRat + 5 * 10 ^ (d.exponent + count) := by
  induction count with
  | zero =>
    have hpos : (0 : ℚ) < 10 ^ d.exponent := by positivity
    simp only [Function.iterate_zero, id, Nat.cast_zero, add_zero]
    constructor <;> linarith
  | succ count ih =>
    have hexponent : d.exponent + (count + 1 : Nat) = d.exponent + count + 1 := by omega
    have hstep := (dropDigit^[count] d).dropDigit_toRat
    rw [iterate_dropDigit_exponent, zpow_ten_succ] at hstep
    rw [Function.iterate_succ_apply', hexponent, zpow_ten_succ]
    constructor <;> linarith

theorem iterate_dropDigit_unit (count : Nat) (d : Fixed) :
    (dropDigit^[count] d).toRat =
      (dropDigit^[count] d).coefficient * 10 ^ (d.exponent + count) := by
  rw [toRat, iterate_dropDigit_exponent]

theorem limitPlaces_cases (count : Nat) (d : Fixed) :
    (limitPlaces count d = ⟨0, 0⟩ ∧ ∃ j < count, (dropDigit^[j] d).coefficient < 10) ∨
      limitPlaces count d = dropDigit^[count] d ∧
        ∀ j < count, 10 ≤ (dropDigit^[j] d).coefficient := by
  induction count generalizing d with
  | zero => exact .inr ⟨rfl, nofun⟩
  | succ count ih =>
    rw [limitPlaces]
    split_ifs with hdigit
    · refine .inl ⟨rfl, 0, by omega, ?_⟩
      rw [Function.iterate_zero, id]
      omega
    · obtain ⟨hzero, j, hj, hsmall⟩ | ⟨heq, hlarge⟩ := ih d.dropDigit
      · exact .inl ⟨hzero, j + 1, by omega, hsmall⟩
      · refine .inr ⟨heq, ?_⟩
        intro j hj
        cases j with
        | zero =>
          rw [Function.iterate_zero, id]
          omega
        | succ j => exact hlarge j (by omega)

/-- Whether a coefficient of one digit is met on the way is told by the number itself. -/
theorem limitPlaces_succ (count : Nat) (d : Fixed) :
    limitPlaces (count + 1) d = ⟨0, 0⟩ ∧ 9 * d.toRat ≤ 85 * 10 ^ (d.exponent + count) ∨
      limitPlaces (count + 1) d = dropDigit^[count + 1] d ∧
        85 * 10 ^ (d.exponent + count) ≤ 9 * d.toRat ∧
        1 ≤ (dropDigit^[count + 1] d).coefficient := by
  obtain ⟨hzero, j, hj, hsmall⟩ | ⟨heq, hlarge⟩ := limitPlaces_cases (count + 1) d
  · refine .inl ⟨hzero, ?_⟩
    have hcoefficient : ((dropDigit^[j] d).coefficient : ℚ) ≤ 9 := by
      exact_mod_cast Nat.le_of_lt_succ hsmall
    have hunit : (0 : ℚ) < 10 ^ (d.exponent + j) := by positivity
    have herror := (iterate_dropDigit_toRat j d).1
    rw [iterate_dropDigit_unit] at herror
    have hj' : (10 : ℚ) ^ (d.exponent + j) ≤ 10 ^ (d.exponent + count) :=
      zpow_le_zpow_right₀ (by norm_num) (by omega)
    nlinarith
  · refine .inr ⟨heq, ?_, ?_⟩
    · have hcoefficient : (10 : ℚ) ≤ (dropDigit^[count] d).coefficient := by
        exact_mod_cast hlarge count (by omega)
      have hunit : (0 : ℚ) < 10 ^ (d.exponent + count) := by positivity
      have herror := (iterate_dropDigit_toRat count d).2
      rw [iterate_dropDigit_unit] at herror
      nlinarith
    · have hlast := hlarge count (by omega)
      have hdrop := (dropDigit_coefficient (dropDigit^[count] d)).1
      rw [Function.iterate_succ_apply']
      omega

/-- Limiting the digits drops them one by one until the coefficient is small enough. -/
theorem limitDigits_eq (count : Nat) (d : Fixed) :
    ∃ dropped ≤ count, limitDigits count d = dropDigit^[dropped] d ∧
      (dropped = 0 ∨ 2 ^ 52 ≤ 10 * (limitDigits count d).coefficient + 4) ∧
      (dropped = count ∨ (limitDigits count d).coefficient < 2 ^ 52) := by
  induction count generalizing d with
  | zero => exact ⟨0, le_rfl, rfl, .inl rfl, .inl rfl⟩
  | succ count ih =>
    rw [limitDigits]
    split_ifs with hlarge
    · obtain ⟨dropped, hle, heq, hlower, hupper⟩ := ih d.dropDigit
      refine ⟨dropped + 1, by omega, heq, ?_, ?_⟩
      · right
        rcases hlower with rfl | hlower
        · have hfirst := (dropDigit_coefficient d).1
          rw [heq, Function.iterate_zero, id]
          omega
        · exact hlower
      · rcases hupper with rfl | hupper
        · exact .inl rfl
        · exact .inr hupper
    · refine ⟨0, by omega, rfl, .inl rfl, .inr ?_⟩
      omega

theorem trimZeros_toRat (count : Nat) (d : Fixed) : (trimZeros count d).toRat = d.toRat := by
  induction count generalizing d with
  | zero => rfl
  | succ count ih =>
    rw [trimZeros]
    split_ifs with hzero
    · have hcoefficient : (d.coefficient : ℚ) = 10 * (d.coefficient / 10 : Nat) := by
        have h : d.coefficient = 10 * (d.coefficient / 10) := by omega
        exact_mod_cast h
      rw [ih, toRat, toRat, zpow_ten_succ, hcoefficient]
      ring
    · rfl

theorem trimZeros_exponent_le (count : Nat) (d : Fixed) :
    (trimZeros count d).exponent ≤ d.exponent + count := by
  induction count generalizing d with
  | zero => simp [trimZeros]
  | succ count ih =>
    rw [trimZeros]
    split_ifs
    · refine (ih _).trans ?_
      push_cast
      omega
    · push_cast
      omega

/-- A decimal that ends after the point is an integer up to its sign when its number is. -/
theorem isInteger_iff {d : Fixed} (h : d.exponent ≤ 0) (negative : Bool) (i : Int) :
    d.isInteger negative i = true ↔ d.toRat = (if negative then -i else i : Int) := by
  have hpower : (10 : ℚ) ^ d.exponent * 10 ^ d.places = 1 := by
    rw [← zpow_natCast, ← zpow_add₀ (by norm_num : (10 : ℚ) ≠ 0)]
    have hsum : d.exponent + (d.places : Int) = 0 := by
      unfold places
      omega
    rw [hsum, zpow_zero]
  have hscale : (d.coefficient : ℚ) = d.toRat * 10 ^ d.places := by
    rw [toRat, mul_assoc, hpower, mul_one]
  have hwhole (k : Int) : (d.coefficient : Int) = k * (10 ^ d.places : Nat) ↔ d.toRat = k := by
    rw [← @Int.cast_inj ℚ]
    push_cast
    rw [hscale]
    exact mul_left_inj' (by positivity)
  unfold isInteger
  rw [decide_eq_true_eq, Nat.pow_eq]
  cases negative with
  | false => exact hwhole i
  | true =>
    rw [← hwhole (if true then -i else i), if_pos rfl, if_pos rfl, neg_mul]
    exact neg_eq_iff_eq_neg

/-! ## The passes together -/

/-- What is left of the digits of a fraction. -/
def rounded (d : Fixed) : Fixed :=
  limitDigits (limitPlaces (d.places - 28) d).places (limitPlaces (d.places - 28) d)

/-- A decimal and what is left of its digits, when it reaches the 28th place. -/
structure Rounding (d r : Fixed) : Prop where
  exponent : r.exponent ≤ 0
  pos : 1 ≤ r.coefficient
  lower : 9 * d.toRat ≤ 9 * r.toRat + 4 * 10 ^ r.exponent
  upper : 9 * r.toRat ≤ 9 * d.toRat + 5 * 10 ^ r.exponent
  short : r.exponent = 0 ∨ r.coefficient < 2 ^ 52
  precise : r.toRat = d.toRat ∨ 2 ^ 52 ≤ 10 * r.coefficient + 4 ∨
    r.exponent = -28 ∧ r.coefficient < 2 ^ 52

theorem coefficient_pos {d : Fixed} (h : 0 < d.toRat) : 1 ≤ d.coefficient := by
  refine Nat.one_le_iff_ne_zero.2 fun hzero => ?_
  rw [toRat, hzero] at h
  simp at h

theorem rounding_of_limitPlaces {d : Fixed} (hexponent : d.exponent ≤ 0)
    (hplaces : limitPlaces (d.places - 28) d = dropDigit^[d.places - 28] d)
    (hone : 1 ≤ (dropDigit^[d.places - 28] d).coefficient) : Rounding d (rounded d) := by
  rw [rounded, hplaces]
  set placed := d.places - 28 with hplaced
  set d' := dropDigit^[placed] d with hd'
  have hexponent' : d'.exponent = d.exponent + placed := iterate_dropDigit_exponent placed d
  have hd_places : d.places = (-d.exponent).toNat := rfl
  have hplaces' : d'.places = (-d'.exponent).toNat := rfl
  obtain ⟨dropped, hle, heq, hlower, hupper⟩ := limitDigits_eq d'.places d'
  set r := limitDigits d'.places d'
  have hr : r = dropDigit^[dropped + placed] d := by rw [heq, hd', ← Function.iterate_add_apply]
  have hr_exponent : r.exponent = d.exponent + (dropped + placed : Nat) := by
    rw [hr, iterate_dropDigit_exponent]
  have herror := iterate_dropDigit_toRat (dropped + placed) d
  rw [← hr, ← hr_exponent] at herror
  refine ⟨by omega, ?_, herror.1, herror.2, ?_, ?_⟩
  · rcases hlower with rfl | hlower
    · rw [heq]
      exact hone
    · omega
  · rcases hupper with rfl | hupper
    · left
      omega
    · exact .inr hupper
  · rcases hlower with rfl | hlower
    · -- Either no digit was dropped at all, or only those beyond the 28th place were.
      by_cases hnone : placed = 0
      · left
        rw [hr, hnone]
        rfl
      · have hr_places : r.exponent = -28 := by omega
        refine .inr (.inr ⟨hr_places, ?_⟩)
        rcases hupper with hzero | hupper
        · omega
        · exact hupper
    · exact .inr (.inl hlower)

/-- A number that does not reach the 28th place is lost, any other is rounded. -/
theorem rounded_cases {d : Fixed} (hexponent : d.exponent ≤ 0) (hpos : 0 < d.toRat) :
    rounded d = ⟨0, 0⟩ ∧ 9 * d.toRat ≤ 85 / 10 ^ 29 ∨
      Rounding d (rounded d) ∧ 85 / 10 ^ 29 ≤ 9 * d.toRat := by
  have hd_places : d.places = (-d.exponent).toNat := rfl
  cases hcount : d.places - 28 with
  | zero =>
    refine .inr ⟨rounding_of_limitPlaces hexponent ?_ ?_, ?_⟩
    · rw [hcount]
      rfl
    · rw [hcount]
      exact coefficient_pos hpos
    · have hone : (1 : ℚ) ≤ d.coefficient := by exact_mod_cast coefficient_pos hpos
      have hunit : (10 : ℚ) ^ (-28 : Int) ≤ 10 ^ d.exponent :=
        zpow_le_zpow_right₀ (by norm_num) (by omega)
      have hvalue : (10 : ℚ) ^ (-28 : Int) ≤ d.toRat := by
        rw [toRat]
        exact hunit.trans (le_mul_of_one_le_left (by positivity) hone)
      norm_num at hvalue ⊢
      linarith
  | succ count =>
    have hlast : d.exponent + count = -29 := by omega
    have hcases := limitPlaces_succ count d
    rw [hlast, ← hcount] at hcases
    have hunit : (85 : ℚ) * 10 ^ (-29 : Int) = 85 / 10 ^ 29 := by norm_num
    rw [hunit] at hcases
    obtain ⟨hzero, hsmall⟩ | ⟨heq, hlarge, hone⟩ := hcases
    · refine .inl ⟨?_, hsmall⟩
      rw [rounded, hzero]
      rfl
    · exact .inr ⟨rounding_of_limitPlaces hexponent heq hone, hlarge⟩

/-- A fraction rounded to an integer is close to it. -/
theorem Rounding.integer {d r : Fixed} (h : Rounding d r) {n : Nat} (hn : r.toRat = n) :
    1 ≤ n ∧ |d.toRat - n| ≤ 6 * n / 2 ^ 52 := by
  have hunit : (0 : ℚ) < 10 ^ r.exponent := by positivity
  have hcoefficient : (1 : ℚ) ≤ r.coefficient := by exact_mod_cast h.pos
  have hvalue : r.coefficient * (10 : ℚ) ^ r.exponent = n := hn
  have hn_pos : 1 ≤ n := by
    have hpos : (0 : ℚ) < n := by
      rw [← hvalue]
      positivity
    exact_mod_cast hpos
  have hn_one : (1 : ℚ) ≤ n := by exact_mod_cast hn_pos
  refine ⟨hn_pos, ?_⟩
  rcases h.precise with hexact | hdigits | ⟨hplaces, hshort⟩
  · rw [← hexact, hn, sub_self, abs_zero]
    positivity
  · have hdigits' : (2 : ℚ) ^ 52 ≤ 10 * r.coefficient + 4 := by exact_mod_cast hdigits
    have hscaled : (2 ^ 52 - 4) * (10 : ℚ) ^ r.exponent ≤ 10 * n :=
      calc (2 ^ 52 - 4) * (10 : ℚ) ^ r.exponent
        _ ≤ 10 * r.coefficient * (10 : ℚ) ^ r.exponent := by
          gcongr
          linarith
        _ = 10 * n := by rw [mul_assoc, hvalue]
    have hlower := h.lower
    have hupper := h.upper
    rw [hn] at hlower hupper
    rw [abs_le]
    constructor <;> linarith
  · -- A number of at least one with all 28 places has too many digits.
    exfalso
    have hshort' : (r.coefficient : ℚ) < 2 ^ 52 := by exact_mod_cast hshort
    rw [hplaces] at hvalue
    norm_num at hvalue
    linarith

/-- From `2 ^ 49` on no place is left. -/
theorem Rounding.exponent_eq_zero {d r : Fixed} (h : Rounding d r)
    (hlarge : 2 ^ 49 - 1 ≤ d.toRat) : r.exponent = 0 := by
  rcases h.short with hzero | hshort
  · exact hzero
  · by_contra hne
    have hshort' : (r.coefficient : ℚ) + 1 ≤ 2 ^ 52 := by exact_mod_cast hshort
    have hunit : (0 : ℚ) < 10 ^ r.exponent := by positivity
    have htenth : (10 : ℚ) ^ r.exponent ≤ 1 / 10 := by
      have hexponent : r.exponent ≤ -1 := by have := h.exponent; omega
      have hle : (10 : ℚ) ^ r.exponent ≤ 10 ^ (-1 : Int) :=
        zpow_le_zpow_right₀ (by norm_num) hexponent
      norm_num at hle ⊢
      exact hle
    have hlower := h.lower
    have hvalue : r.toRat ≤ (2 ^ 52 - 1) * 10 ^ r.exponent := by
      rw [toRat]
      gcongr
      linarith
    linarith

/-! ## The decimal of a double -/

section

variable {x : Binary64}

theorem isZero_of_exponent_nonneg (h : 0 ≤ x.exponent) : x.isZero = false := by
  have hfield : x.exponentField ≠ 0 := by
    intro hfield
    rw [Binary64.exponent, if_pos hfield] at h
    omega
  simp [Binary64.isZero, hfield]

theorem ofBinary64?_eq (hfinite : x.isFinite = true) (hzero : x.isZero = false) :
    ofBinary64? x = (absorbDoubles x.exponent.toNat (halved x)).bind fun doubled =>
      (absorbTens doubled.exponent.toNat doubled).map fun d =>
        trimZeros (rounded d).places (rounded d) := by
  unfold ofBinary64?
  rw [hfinite, hzero]
  rfl

/-- A double that is whole by its format is found as it is or is out of range. -/
theorem ofBinary64?_of_exponent_nonneg (hfinite : x.isFinite = true) (h : 0 ≤ x.exponent) :
    ofBinary64? x = some ⟨x.significand * 2 ^ x.exponent.toNat, 0⟩ ∨
      ofBinary64? x = none ∧ limit ≤ x.significand * 2 ^ x.exponent.toNat := by
  have hstart : halved x = ⟨x.significand, (x.exponent.toNat : Int)⟩ := by
    have hcount : (-x.exponent).toNat = 0 := by omega
    rw [halved, hcount, absorbHalves, Int.toNat_of_nonneg h]
  rw [ofBinary64?_eq hfinite (isZero_of_exponent_nonneg h), hstart]
  obtain hfound | ⟨hnone, hlarge⟩ := absorbDoubles_natCast x.exponent.toNat x.significand
  · left
    rw [hfound]
    rfl
  · right
    rw [hnone]
    exact ⟨rfl, hlarge⟩

theorem ofBinary64?_of_exponent_neg (hfinite : x.isFinite = true) (hzero : x.isZero = false)
    (hneg : x.exponent < 0) :
    ofBinary64? x = some (trimZeros (rounded (halved x)).places (rounded (halved x))) := by
  have hdoubles : x.exponent.toNat = 0 := by omega
  have htens : (halved x).exponent.toNat = 0 := by have := halved_exponent_le hneg; omega
  rw [ofBinary64?_eq hfinite hzero, hdoubles, absorbDoubles, Option.bind_some, htens]
  rfl

end

end Decimal.Fixed
end ObjectGraph
