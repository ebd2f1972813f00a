import ObjectGraph.Decimal.Shortest
import ObjectGraph.Proofs.NearestDouble

/-!
# Shortest decimals

The decimal that is picked for a double is near the double: a grid of seventeen digits is finer than
the neighbourhood of any double, so one of the two neighbours on it lies within. So the decimal is
rounded to the double, also when it is written with other digits and another exponent.
-/
namespace ObjectGraph

open Binary64 (pow_toNat_div)

/-- The decimal as a number. -/
def Decimal.toRat (d : Decimal) : ℚ := d.digits * 10 ^ d.exponent

namespace Binary64

variable {x : Binary64}

theorem significand_pos (h : x.isZero = false) : 0 < x.significand := by
  rw [Nat.pos_iff_ne_zero]
  intro hzero
  rw [x.isZero_iff.2 hzero] at h
  cases h

/-- The neighbourhood of a double stays away from zero. -/
theorem Near.pos {r : ℚ} (h : x.Near r) (hzero : x.isZero = false) : 0 < r := by
  have hunit := x.unit_pos
  have hone : (1 : ℚ) ≤ x.significand := by exact_mod_cast significand_pos hzero
  have hlow := h.low
  have hgap := x.gapBelow_le
  unfold magnitude at hlow
  nlinarith

/-- A decimal near the double is rounded to it. -/
theorem Near.ofDecimal {digits : Nat} {exponent : Int} (h : x.Near (digits * 10 ^ exponent))
    (hfinite : x.isFinite = true) (hzero : x.isZero = false) :
    Binary64.ofDecimal x.negative digits exponent = x := by
  have hdigits : 0 < digits := by
    rw [Nat.pos_iff_ne_zero]
    rintro rfl
    simpa using h.pos hzero
  have hratio : ((digits * Nat.pow 10 exponent.toNat : Nat) : ℚ) /
      (Nat.pow 10 (-exponent).toNat : Nat) = digits * 10 ^ exponent := by
    rw [Nat.pow_eq, Nat.pow_eq]
    push_cast
    rw [mul_div_assoc, pow_toNat_div (by norm_num)]
  rw [← hratio] at h
  exact h.ofRatio hfinite (Nat.mul_pos hdigits (Nat.pow_pos (by decide))) (Nat.pow_pos (by decide))

end Binary64

namespace Decimal

/-! ## The interval -/

section

variable {x : Binary64}

theorem Interval.den_pos (x : Binary64) : 0 < (Interval.of x).den := by
  simp only [Interval.of, Nat.shiftLeft_eq]
  positivity

/-- The fractions of an interval are quarters of the last place. -/
theorem quarters (n : Nat) (e : Int) :
    ((n * (1 <<< e.toNat) : Nat) : ℚ) / (4 <<< (-e).toNat : Nat) = n / 4 * 2 ^ e := by
  rw [Nat.one_shiftLeft, Nat.shiftLeft_eq]
  push_cast
  rw [mul_div_mul_comm, pow_toNat_div two_ne_zero]

theorem Interval.num_div_den (x : Binary64) :
    ((Interval.of x).num / (Interval.of x).den : ℚ) = x.magnitude := by
  have h := quarters (4 * x.significand) x.exponent
  rw [Binary64.magnitude]
  refine h.trans ?_
  push_cast
  ring

theorem Interval.above_div_den (x : Binary64) :
    ((Interval.of x).above / (Interval.of x).den : ℚ) = x.gapAbove := by
  have h := quarters 2 x.exponent
  rw [Binary64.gapAbove]
  refine h.trans ?_
  push_cast
  ring

theorem Interval.below_div_den (x : Binary64) :
    ((Interval.of x).below / (Interval.of x).den : ℚ) = x.gapBelow := by
  have hbinade : (x.significand = 0x10000000000000 && x.exponent ≠ -1074) = true ↔
      x.StartsBinade := by
    simp [Binary64.StartsBinade]
  simp only [Interval.of, hbinade, Binary64.gapBelow]
  split
  · have h := quarters 1 x.exponent
    rw [one_mul] at h
    refine h.trans ?_
    push_cast
    ring
  · refine (quarters 2 x.exponent).trans ?_
    push_cast
    ring

theorem Interval.closed_iff (x : Binary64) :
    (Interval.of x).closed = true ↔ ¬ x.significand % 2 = 1 := by
  simp only [Interval.of, decide_eq_true_eq]
  omega

/-- A fraction after it was scaled by a power of ten. -/
theorem shifted_ratio (num den : Nat) (exponent : Int) :
    ((shifted num den (-exponent)).1 : ℚ) / (shifted num den (-exponent)).2 =
      num / den / 10 ^ exponent := by
  have hten : (10 : ℚ) ≠ 0 := by norm_num
  simp only [shifted, neg_neg, Nat.pow_eq]
  push_cast
  rw [mul_div_mul_comm, ← pow_toNat_div hten exponent, div_div_eq_mul_div, mul_div_assoc]

theorem shifted_den_pos {den : Nat} (h : 0 < den) (num : Nat) (exponent : Int) :
    0 < (shifted num den exponent).2 :=
  Nat.mul_pos h (Nat.pow_pos (by decide))

/-- The scale of the integers that an interval compares for a decimal. -/
def Interval.scale (x : Binary64) (d : Decimal) (r : ℚ) : ℚ :=
  r / 10 ^ d.exponent * (shifted (Interval.of x).num (Interval.of x).den (-d.exponent)).2

theorem Interval.strictMono_scale (x : Binary64) (d : Decimal) : StrictMono (scale x d) := by
  intro r s h
  have hden : (0 : ℚ) < (shifted (Interval.of x).num (Interval.of x).den (-d.exponent)).2 := by
    exact_mod_cast shifted_den_pos (Interval.den_pos x) _ _
  unfold scale
  gcongr

theorem Interval.scale_add (x : Binary64) (d : Decimal) (r s : ℚ) :
    scale x d (r + s) = scale x d r + scale x d s := by
  unfold scale
  ring

theorem Interval.cast_shifted (d : Decimal) {n : Nat} {r : ℚ}
    (h : (n / (Interval.of x).den : ℚ) = r) :
    ((shifted n (Interval.of x).den (-d.exponent)).1 : ℚ) = scale x d r := by
  have hden : (0 : ℚ) < (shifted n (Interval.of x).den (-d.exponent)).2 := by
    exact_mod_cast shifted_den_pos (Interval.den_pos x) n _
  rw [← h, scale, ← shifted_ratio]
  exact (div_mul_cancel₀ _ hden.ne').symm

theorem Interval.cast_place (x : Binary64) (d : Decimal) :
    ((d.digits * (shifted (Interval.of x).num (Interval.of x).den (-d.exponent)).2 : Nat) : ℚ) =
      scale x d d.toRat := by
  have hpow : (10 : ℚ) ^ d.exponent ≠ 0 := by positivity
  rw [scale, toRat, mul_div_cancel_right₀ _ hpow, Nat.cast_mul]

/-- Integers of that scale compare as what they stand for. -/
theorem Interval.compare_scale (x : Binary64) (d : Decimal) {k m n : Nat} {r s t : ℚ}
    (hk : (k : ℚ) = scale x d r) (hm : (m : ℚ) = scale x d s) (hn : (n : ℚ) = scale x d t) :
    (k ≤ m + n ↔ r ≤ s + t) ∧ (k < m + n ↔ r < s + t) := by
  have hsum : ((m + n : Nat) : ℚ) = scale x d (s + t) := by
    rw [scale_add, ← hm, ← hn, Nat.cast_add]
  have hle : k ≤ m + n ↔ (k : ℚ) ≤ (m + n : Nat) := Nat.cast_le.symm
  have hlt : k < m + n ↔ (k : ℚ) < (m + n : Nat) := Nat.cast_lt.symm
  rw [hle, hlt, hk, hsum]
  exact ⟨(strictMono_scale x d).le_iff_le, (strictMono_scale x d).lt_iff_lt⟩

/-- The interval of a double is its neighbourhood. -/
theorem Interval.contains_iff (d : Decimal) :
    (Interval.of x).contains d = true ↔ x.Near d.toRat := by
  have hnum := cast_shifted d (num_div_den x)
  have hlow := compare_scale x d hnum (cast_place x d) (cast_shifted d (below_div_den x))
  have hhigh := compare_scale x d (cast_place x d) hnum (cast_shifted d (above_div_den x))
  have hclosed := closed_iff x
  unfold Interval.contains
  dsimp only
  by_cases hodd : x.significand % 2 = 1
  · have hopen : (Interval.of x).closed = false := by
      rw [← Bool.not_eq_true, hclosed, not_not]
      exact hodd
    rw [hopen, if_neg Bool.false_ne_true, Bool.and_eq_true, decide_eq_true_eq, decide_eq_true_eq,
      hlow.2, hhigh.2, ← sub_lt_iff_lt_add]
    exact ⟨fun h => ⟨h.1.le, h.2.le, fun _ => h⟩, fun h => h.strict hodd⟩
  · rw [if_pos (hclosed.2 hodd), Bool.and_eq_true, decide_eq_true_eq, decide_eq_true_eq,
      hlow.1, hhigh.1, ← sub_le_iff_le_add]
    exact ⟨fun h => ⟨h.1, h.2, fun h => absurd h hodd⟩, fun h => ⟨h.low, h.high⟩⟩

/-! ## The search -/

/-- What is picked on a grid lies in the interval. -/
theorem Interval.contains_of_candidate? {i : Interval} {tie : Tie} {exponent : Int} {d : Decimal}
    (h : i.candidate? tie exponent = some d) : i.contains d = true := by
  unfold candidate? at h
  dsimp only at h
  split at h
  · cases h
  · next hfloor _ =>
    cases h
    exact (Bool.and_eq_true_iff.1 hfloor).2
  · next _ hceil =>
    cases h
    exact hceil
  · next hfloor hceil =>
    have hlow := (Bool.and_eq_true_iff.1 hfloor).2
    split at h
    · cases h
      exact hlow
    · split at h
      · cases h
        exact hceil
      · split at h
        · cases h
          exact hceil
        · rw [← Option.some.inj h]
          split
          · exact hlow
          · exact hceil

theorem Interval.contains_of_search {i : Interval} {tie : Tie} {magnitude : Int} {d : Decimal} :
    ∀ {grids : Nat} {count : Int}, i.search tie magnitude grids count = some d →
      i.contains d = true
  | 0, _, h => by cases h
  | grids + 1, count, h => by
    rw [search] at h
    split at h
    · next d' hcandidate =>
      cases h
      exact contains_of_candidate? hcandidate
    · exact contains_of_search h

/-- The search stops at the last of its grids, if not before. -/
theorem Interval.search_ne_none {i : Interval} {tie : Tie} {magnitude : Int} :
    ∀ {grids : Nat} {count : Int}, i.candidate? tie (magnitude - (count + grids)) ≠ none →
      i.search tie magnitude (grids + 1) count ≠ none
  | 0, count, h => by
    rw [search]
    simp only [Nat.cast_zero, add_zero] at h
    split
    · exact Option.some_ne_none _
    · next hnone => exact absurd hnone h
  | grids + 1, count, h => by
    rw [search]
    split
    · exact Option.some_ne_none _
    · refine search_ne_none ?_
      rwa [add_assoc, add_comm 1, ← Nat.cast_add_one]

/-- Where nothing is picked, neither neighbour on the grid lies in the interval. -/
theorem Interval.floor_and_ceil {i : Interval} {tie : Tie} {exponent : Int}
    (h : i.candidate? tie exponent = none) :
    let (num, den) := shifted i.num i.den (-exponent)
    (num / den ≠ 0 → i.contains ⟨num / den, exponent⟩ = false) ∧
      i.contains ⟨num / den + 1, exponent⟩ = false := by
  unfold candidate? at h
  dsimp only at h ⊢
  split at h
  · next hfloor hceil =>
    refine ⟨fun hlow => ?_, hceil⟩
    rwa [decide_eq_true hlow, Bool.true_and] at hfloor
  · cases h
  · cases h
  · split at h
    · cases h
    · split at h
      · cases h
      · split at h <;> cases h

/-- Where the interval is wider than the grid, the number has a neighbour in it. -/
theorem Interval.candidate?_ne_none (tie : Tie) {exponent : Int}
    (hwide : (10 : ℚ) ^ exponent < x.gapBelow + x.gapAbove) (hhigh : 10 ^ exponent ≤ x.magnitude) :
    (Interval.of x).candidate? tie exponent ≠ none := by
  intro h
  obtain ⟨hfloor, hceil⟩ := floor_and_ceil h
  have hpow : (0 : ℚ) < 10 ^ exponent := by positivity
  have hbelow := x.gapBelow_pos
  have habove := x.gapAbove_pos
  set num := (shifted (Interval.of x).num (Interval.of x).den (-exponent)).1
  set den := (shifted (Interval.of x).num (Interval.of x).den (-exponent)).2
  have hden : 0 < den := shifted_den_pos (den_pos x) _ _
  have hdenRat : (0 : ℚ) < den := by exact_mod_cast hden
  have hratio : (num / den : ℚ) = x.magnitude / 10 ^ exponent := by
    rw [← num_div_den x, ← shifted_ratio]
  -- The number stands between its two neighbours on the grid, and these are far from it.
  have hlow : ((num / den : Nat) : ℚ) * 10 ^ exponent ≤ x.magnitude := by
    rw [← le_div_iff₀ hpow, ← hratio, le_div_iff₀ hdenRat]
    exact_mod_cast Nat.div_mul_le_self num den
  have hup : x.magnitude < ((num / den + 1 : Nat) : ℚ) * 10 ^ exponent := by
    rw [← div_lt_iff₀ hpow, ← hratio, div_lt_iff₀ hdenRat, mul_comm]
    exact_mod_cast Nat.lt_mul_div_succ num hden
  have hne : num / den ≠ 0 := by
    intro hzero
    rw [hzero] at hup
    push_cast at hup
    linarith
  have hfar : ¬ x.Near (toRat ⟨num / den, exponent⟩) :=
    (contains_iff _).not.1 (Bool.eq_false_iff.1 (hfloor hne))
  have hfar' : ¬ x.Near (toRat ⟨num / den + 1, exponent⟩) :=
    (contains_iff _).not.1 (Bool.eq_false_iff.1 hceil)
  have hfloorLow : ((num / den : Nat) : ℚ) * 10 ^ exponent ≤ x.magnitude - x.gapBelow :=
    not_lt.1 fun hlt => hfar (.of_lt hlt (hlow.trans_lt (lt_add_of_pos_right _ habove)))
  have hceilHigh : x.magnitude + x.gapAbove ≤ ((num / den + 1 : Nat) : ℚ) * 10 ^ exponent :=
    not_lt.1 fun hlt => hfar' (.of_lt ((sub_lt_self _ hbelow).trans hup) hlt)
  push_cast at hceilHigh
  linarith

/-! ## Seventeen digits -/

theorem pow_length_le {n : Nat} (h : 0 < n) : (10 : ℚ) ^ ((length n : Int) - 1) ≤ n := by
  have hpos : 0 < length n := List.length_pos_iff.2 Nat.toDigits_ne_nil
  have hnat : 10 ^ (length n - 1) ≤ n := by
    rcases Nat.eq_zero_or_pos (length n - 1) with hzero | hsome
    · rw [hzero, pow_zero]
      exact h
    · by_contra hlt
      have hle := (Nat.length_toDigits_le_iff (by decide) hsome).2 (not_le.1 hlt)
      have hlength : length n ≤ length n - 1 := hle
      omega
  rw [← Nat.cast_pred hpos, zpow_natCast]
  exact_mod_cast hnat

theorem lt_pow_length (n : Nat) : (n : ℚ) < 10 ^ (length n : Int) := by
  have hpos : 0 < length n := List.length_pos_iff.2 Nat.toDigits_ne_nil
  have hnat : n < 10 ^ length n := (Nat.length_toDigits_le_iff (by decide) hpos).1 le_rfl
  rw [zpow_natCast]
  exact_mod_cast hnat

/-- The leading digit of the ratio is not zero. -/
theorem pow_magnitude_le {num den : Nat} (hnum : 0 < num) (hden : 0 < den) :
    (10 : ℚ) ^ (magnitude num den - 1) ≤ num / den := by
  have hnumRat : (0 : ℚ) < num := by exact_mod_cast hnum
  have hdenRat : (0 : ℚ) < den := by exact_mod_cast hden
  unfold magnitude
  split
  · next hle =>
    refine (pow_length_le (Nat.div_pos hle hden)).trans ?_
    rw [le_div_iff₀ hdenRat]
    exact_mod_cast Nat.div_mul_le_self num den
  · next hlt =>
    set above := (den + num - 1) / num - 1 with habove
    have hcover : den ≤ (above + 1) * num := by
      have hlow : num < den := not_le.1 hlt
      have hbound : den + num - 1 < num * ((den + num - 1) / num + 1) :=
        Nat.lt_mul_div_succ _ hnum
      have hone : 1 ≤ (den + num - 1) / num := Nat.div_pos (by omega) hnum
      have hsplit : num * ((den + num - 1) / num + 1) = num * ((den + num - 1) / num) + num :=
        Nat.mul_succ _ _
      have hback : above + 1 = (den + num - 1) / num := by omega
      rw [hback, Nat.mul_comm]
      omega
    have hpow : (above + 1 : ℚ) ≤ 10 ^ (length above : Int) := by
      have hlt := lt_pow_length above
      rw [zpow_natCast] at hlt ⊢
      exact_mod_cast hlt
    have hexponent : (1 : Int) - length above - 1 = -length above := by omega
    rw [hexponent, zpow_neg, inv_le_comm₀ (by positivity) (by positivity), inv_div,
      div_le_iff₀ hnumRat]
    calc (den : ℚ) ≤ (above + 1) * num := by exact_mod_cast hcover
      _ ≤ 10 ^ (length above : Int) * num := by gcongr

/-- The last grid is finer than the neighbourhood is wide. -/
theorem grid_lt_gaps {exponent : Int} (h : (10 : ℚ) ^ (exponent + 16) ≤ x.magnitude) :
    (10 : ℚ) ^ exponent < x.gapBelow + x.gapAbove := by
  have hunit := x.unit_pos
  have hgrid : (10 : ℚ) ^ exponent * 10 ^ 16 ≤ x.significand * 2 ^ x.exponent := by
    rwa [zpow_add₀ (by norm_num)] at h
  have hsignificand : (x.significand : ℚ) < 2 ^ 53 := by exact_mod_cast x.significand_lt
  unfold Binary64.gapBelow Binary64.gapAbove
  split
  · next hbinade =>
    rw [hbinade.1] at hgrid
    push_cast at hgrid
    linarith
  · nlinarith

/-- Zeros at the end go from the digits to the exponent. -/
theorem toRat_trim (fuel : Nat) (d : Decimal) : (trim fuel d).toRat = d.toRat := by
  induction fuel generalizing d with
  | zero => rfl
  | succ fuel ih =>
    rw [trim]
    split
    · next hzero =>
      have hdigits : ((d.digits / 10 : Nat) : ℚ) * 10 = d.digits := by
        exact_mod_cast Nat.div_mul_cancel (Nat.dvd_of_mod_eq_zero hzero)
      rw [ih, toRat, toRat, zpow_add₀ (by norm_num), zpow_one, mul_comm ((10 : ℚ) ^ _), ← mul_assoc,
        hdigits]
    · rfl

/-- The shortest decimal is near the double. -/
theorem near_shortest (tie : Tie) (hzero : x.isZero = false) : x.Near (shortest tie x).toRat := by
  have hnum : 0 < (Interval.of x).num := by
    have hsignificand := Binary64.significand_pos hzero
    simp only [Interval.of, Nat.one_shiftLeft]
    positivity
  have hmagnitude : (10 : ℚ) ^ (magnitude (Interval.of x).num (Interval.of x).den - 1) ≤
      x.magnitude := by
    rw [← Interval.num_div_den x]
    exact pow_magnitude_le hnum (Interval.den_pos x)
  set m := magnitude (Interval.of x).num (Interval.of x).den with hm
  have hlast : (10 : ℚ) ^ (m - 17 + 16) ≤ x.magnitude := by
    rwa [show m - 17 + 16 = m - 1 by omega]
  have hgrid : (10 : ℚ) ^ (m - 17) ≤ x.magnitude :=
    (zpow_le_zpow_right₀ (by norm_num) (by omega)).trans hlast
  have hcandidate : (Interval.of x).candidate? tie (m - (1 + (16 : Nat))) ≠ none :=
    Interval.candidate?_ne_none tie (grid_lt_gaps hlast) hgrid
  have hfound : (Interval.of x).search tie m 17 1 ≠ none := Interval.search_ne_none hcandidate
  obtain ⟨d, hd⟩ := Option.ne_none_iff_exists'.1 hfound
  simp only [shortest, ← hm, hd, Option.getD_some, toRat_trim]
  exact (Interval.contains_iff d).1 (Interval.contains_of_search hd)

end
end Decimal
end ObjectGraph
