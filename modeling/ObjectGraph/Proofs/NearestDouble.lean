import ObjectGraph.Binary64.Rounding
import ObjectGraph.Proofs.DecimalRounding

/-!
# The nearest double

A finite double other than zero is the nearest one to all that lies within half a unit of its last
place, and at the least significand of an exponent within a quarter of a unit below. The ends belong
to it when its significand is even. A ratio in that neighbourhood is rounded to the double.
-/
namespace ObjectGraph.Binary64

/-! ## The neighbourhood of a double -/

/-- Below the least significand of an exponent doubles stand twice as close. -/
def StartsBinade (x : Binary64) : Prop := x.significand = 2 ^ 52 ∧ x.exponent ≠ -1074

instance (x : Binary64) : Decidable x.StartsBinade := inferInstanceAs (Decidable (_ ∧ _))

def gapBelow (x : Binary64) : ℚ := if x.StartsBinade then 2 ^ x.exponent / 4 else 2 ^ x.exponent / 2

def gapAbove (x : Binary64) : ℚ := 2 ^ x.exponent / 2

/-- What is nearer to the absolute value of the double than to that of any other, or, if the
significand is even, as near. -/
structure Near (x : Binary64) (r : ℚ) : Prop where
  low : x.magnitude - x.gapBelow ≤ r
  high : r ≤ x.magnitude + x.gapAbove
  strict : x.significand % 2 = 1 → x.magnitude - x.gapBelow < r ∧ r < x.magnitude + x.gapAbove

/-- What lies strictly within is near whether or not the ends belong to the neighbourhood. -/
theorem Near.of_lt {x : Binary64} {r : ℚ} (hlow : x.magnitude - x.gapBelow < r)
    (hhigh : r < x.magnitude + x.gapAbove) : x.Near r :=
  ⟨hlow.le, hhigh.le, fun _ => ⟨hlow, hhigh⟩⟩

section

variable (x : Binary64)

theorem exponent_ge : -1074 ≤ x.exponent := by
  unfold exponent
  split <;> omega

/-- The significand is normal, or the exponent is the least one. -/
theorem normal_or_least : 2 ^ 52 ≤ x.significand ∨ x.exponent = -1074 := by
  unfold significand exponent
  split
  · exact .inr rfl
  · exact .inl (by omega)

theorem unit_pos : (0 : ℚ) < 2 ^ x.exponent := by positivity

theorem gapAbove_pos : 0 < x.gapAbove := half_pos x.unit_pos

theorem gapBelow_pos : 0 < x.gapBelow := by
  have hunit := x.unit_pos
  unfold gapBelow
  split <;> positivity

theorem gapBelow_le : x.gapBelow ≤ 2 ^ x.exponent / 2 := by
  have hunit := x.unit_pos
  unfold gapBelow
  split <;> linarith

end

/-! ## Packing -/

/-- The fields of a double are put together again. -/
theorem pack_significand {x : Binary64} (hfinite : x.isFinite = true) :
    pack x.negative x.significand x.exponent = x := by
  have hbits : x.bits.toNat < 2 ^ 64 := x.bits.toNat_lt
  have hfield : x.exponentField ≠ 2047 := of_decide_eq_true hfinite
  have hmagnitude : (x.exponent + 1074).toNat * 0x10000000000000 + x.significand =
      x.exponentField * 0x10000000000000 + x.fraction := by
    unfold exponent significand
    split <;> omega
  have hcapped : min ((x.exponent + 1074).toNat * 0x10000000000000 + x.significand)
      (2047 * 0x10000000000000) = x.bits.toNat % 0x8000000000000000 := by
    rw [exponentField] at hfield
    rw [hmagnitude, exponentField, fraction]
    omega
  have hword : (if x.negative then 0x8000000000000000 + x.bits.toNat % 0x8000000000000000
      else x.bits.toNat % 0x8000000000000000) = x.bits.toNat := by
    simp only [negative, decide_eq_true_eq]
    split <;> omega
  simp only [pack, hcapped, hword, UInt64.ofNat_toNat]

/-- A carry out of the significand goes to the exponent. -/
theorem pack_carry (negative : Bool) {e : Int} (he : -1074 < e) :
    pack negative (2 ^ 53) (e - 1) = pack negative (2 ^ 52) e := by
  have hmagnitude : (e - 1 + 1074).toNat * 0x10000000000000 + 2 ^ 53 =
      (e + 1074).toNat * 0x10000000000000 + 2 ^ 52 := by omega
  simp only [pack, hmagnitude]

/-! ## The exponent of a ratio -/

section

variable {p q : Nat}

theorem pow_log2_le (hp : 0 < p) : (2 : ℚ) ^ (p.log2 : Int) ≤ p := by
  rw [zpow_natCast]
  exact_mod_cast Nat.log2_self_le hp.ne'

theorem lt_pow_log2 (p : Nat) : (p : ℚ) < 2 ^ (p.log2 + 1 : Int) := by
  have h : p < 2 ^ (p.log2 + 1) := Nat.lt_log2_self
  exact_mod_cast h

theorem pow_toNat_div {b : ℚ} (hb : b ≠ 0) (e : Int) : b ^ e.toNat / b ^ (-e).toNat = b ^ e := by
  rw [← zpow_natCast, ← zpow_natCast, ← zpow_sub₀ hb]
  congr 1
  omega

/-- A ratio after a shift by a power of two. -/
theorem shift_ratio (p q : Nat) (e : Int) :
    ((p <<< (-e).toNat : Nat) : ℚ) / (q <<< e.toNat : Nat) = p / q / 2 ^ e := by
  rw [Nat.shiftLeft_eq, Nat.shiftLeft_eq]
  push_cast
  rw [mul_div_mul_comm, ← pow_toNat_div two_ne_zero e, div_div_eq_mul_div, mul_div_assoc]

/-- The logarithms of its parts tell a ratio up to a factor of two. -/
theorem ratio_log2 (hp : 0 < p) (hq : 0 < q) :
    2 ^ ((p.log2 : Int) - q.log2 - 1) ≤ (p / q : ℚ) ∧
      (p / q : ℚ) < 2 ^ ((p.log2 : Int) - q.log2 + 1) := by
  have hqpos : (0 : ℚ) < q := by exact_mod_cast hq
  rw [le_div_iff₀ hqpos, div_lt_iff₀ hqpos]
  constructor
  · calc (2 : ℚ) ^ ((p.log2 : Int) - q.log2 - 1) * q
        ≤ 2 ^ ((p.log2 : Int) - q.log2 - 1) * 2 ^ (q.log2 + 1 : Int) := by
          gcongr; exact (lt_pow_log2 q).le
      _ = 2 ^ (p.log2 : Int) := by
        rw [← zpow_add₀ two_ne_zero]
        congr 1
        omega
      _ ≤ p := pow_log2_le hp
  · calc (p : ℚ) < 2 ^ (p.log2 + 1 : Int) := lt_pow_log2 p
      _ = 2 ^ ((p.log2 : Int) - q.log2 + 1) * 2 ^ (q.log2 : Int) := by
        rw [← zpow_add₀ two_ne_zero]
        congr 1
        omega
      _ ≤ 2 ^ ((p.log2 : Int) - q.log2 + 1) * q := by gcongr; exact pow_log2_le hq

/-- A ratio is compared with a power of two without division. -/
theorem shiftLeft_le_iff (p : Nat) (hq : 0 < q) (e : Int) :
    q <<< e.toNat ≤ p <<< (-e).toNat ↔ 2 ^ e ≤ (p / q : ℚ) := by
  have hshifted : (0 : ℚ) < (q <<< e.toNat : Nat) := by
    rw [Nat.shiftLeft_eq]
    positivity
  have hone : (2 : ℚ) ^ e ≤ p / q ↔ 1 ≤ (p / q / 2 ^ e : ℚ) := by
    rw [le_div_iff₀ (by positivity : (0 : ℚ) < 2 ^ e), one_mul]
  rw [hone, ← shift_ratio, le_div_iff₀ hshifted, one_mul, Nat.cast_le]

/-- Where it is not the least one, the exponent is that of the leading digit of the ratio. -/
theorem exists_ratioExponent (hp : 0 < p) (hq : 0 < q) :
    ∃ e : Int, ratioExponent p q = max e (-1074) ∧ 2 ^ (e + 52) ≤ (p / q : ℚ) ∧
      (p / q : ℚ) < 2 ^ (e + 53) := by
  obtain ⟨hlower, hupper⟩ := ratio_log2 hp hq
  set d : Int := (p.log2 : Int) - q.log2 with hd
  have hexponent : ratioExponent p q =
      max (if 2 ^ d ≤ (p / q : ℚ) then d - 52 else d - 52 - 1) (-1074) := by
    have hguess : 52 + (d - 52) = d := by omega
    simp only [ratioExponent, ← hd, hguess, shiftLeft_le_iff p hq]
  -- The comparison decides on the factor of two that the logarithms leave.
  by_cases hle : 2 ^ d ≤ (p / q : ℚ)
  · rw [if_pos hle] at hexponent
    refine ⟨_, hexponent, ?_, ?_⟩
    · rwa [Int.sub_add_cancel]
    · rwa [show d - 52 + 53 = d + 1 by omega]
  · rw [if_neg hle] at hexponent
    refine ⟨_, hexponent, ?_, ?_⟩
    · rwa [show d - 52 - 1 + 52 = d - 1 by omega]
    · rw [show d - 52 - 1 + 53 = d by omega]
      exact not_le.1 hle

/-- The power of two that the ratio lies above. -/
theorem ratioExponent_spec (hp : 0 < p) (hq : 0 < q) :
    -1074 ≤ ratioExponent p q ∧ (p / q : ℚ) < 2 ^ (ratioExponent p q + 53) ∧
      (ratioExponent p q = -1074 ∨ 2 ^ (ratioExponent p q + 52) ≤ (p / q : ℚ)) := by
  obtain ⟨e, he, hlow, hhigh⟩ := exists_ratioExponent hp hq
  refine ⟨by omega, ?_, ?_⟩
  · have hle : (2 : ℚ) ^ (e + 53) ≤ 2 ^ (ratioExponent p q + 53) :=
      zpow_le_zpow_right₀ one_lt_two.le (by omega)
    exact hhigh.trans_le hle
  · rcases max_choice e (-1074) with hmax | hmax
    · rw [hmax] at he
      rw [he]
      exact .inr hlow
    · exact .inl (he.trans hmax)

end

/-! ## Rounding -/

/-- A fraction within one half of an integer is rounded to it, at one half if it is even. -/
theorem nearestEven_eq_of_le {num den n : Nat} (hden : 0 < den)
    (hlow : 2 * (n * den) ≤ 2 * num + den) (hhigh : 2 * num ≤ 2 * (n * den) + den)
    (hstrict : n % 2 = 1 → 2 * (n * den) < 2 * num + den ∧ 2 * num < 2 * (n * den) + den) :
    nearestEven num den = n := by
  have hsplit : den * (num / den) + num % den = num := Nat.div_add_mod num den
  have hmod : num % den < den := Nat.mod_lt _ hden
  have hle : num / den ≤ n := by
    by_contra hlt
    have hmul : den * (n + 1) ≤ den * (num / den) := Nat.mul_le_mul_left _ (by omega)
    rw [Nat.mul_succ, Nat.mul_comm den n] at hmul
    omega
  have hge : n ≤ num / den + 1 := by
    by_contra hlt
    have hmul : den * (num / den + 2) ≤ den * n := Nat.mul_le_mul_left _ (by omega)
    rw [Nat.mul_add, Nat.mul_comm den n] at hmul
    omega
  have hcases : num / den = n ∨ n = num / den + 1 := by omega
  unfold nearestEven
  rcases hcases with heq | heq
  · have hmul : den * (num / den) = n * den := by rw [heq, Nat.mul_comm]
    rw [heq]
    dsimp only
    split_ifs with h1 h2 <;> omega
  · have hmul : n * den = den * (num / den) + den := by
      rw [heq, Nat.add_mul, Nat.one_mul, Nat.mul_comm]
    dsimp only
    split_ifs with h1 h2 <;> omega

theorem nearestEven_eq {num den n : Nat} (hden : 0 < den) (hlow : (n : ℚ) - 1 / 2 ≤ num / den)
    (hhigh : (num / den : ℚ) ≤ n + 1 / 2)
    (hstrict : n % 2 = 1 → (n : ℚ) - 1 / 2 < num / den ∧ (num / den : ℚ) < n + 1 / 2) :
    nearestEven num den = n := by
  have hpos : (0 : ℚ) < den := by exact_mod_cast hden
  rw [le_div_iff₀ hpos] at hlow
  rw [div_le_iff₀ hpos] at hhigh
  rw [lt_div_iff₀ hpos, div_lt_iff₀ hpos] at hstrict
  refine nearestEven_eq_of_le hden ?_ ?_ ?_
  · have hlow' : (2 * (n * den) : ℚ) ≤ 2 * num + den := by linarith
    exact_mod_cast hlow'
  · have hhigh' : (2 * num : ℚ) ≤ 2 * (n * den) + den := by linarith
    exact_mod_cast hhigh'
  · intro hodd
    obtain ⟨hl, hh⟩ := hstrict hodd
    have hl' : (2 * (n * den) : ℚ) < 2 * num + den := by linarith
    have hh' : (2 * num : ℚ) < 2 * (n * den) + den := by linarith
    exact ⟨by exact_mod_cast hl', by exact_mod_cast hh'⟩

theorem zpow_exponent_add (x : Binary64) (n : Int) :
    (2 : ℚ) ^ (x.exponent + n) = 2 ^ n * 2 ^ x.exponent := by
  rw [zpow_add₀ two_ne_zero, mul_comm]

theorem significand_le (x : Binary64) : (x.significand : ℚ) ≤ 2 ^ 53 - 1 := by
  have hlt : x.significand + 1 ≤ 2 ^ 53 := x.significand_lt
  have hcast : ((x.significand + 1 : Nat) : ℚ) ≤ 2 ^ 53 := by exact_mod_cast hlt
  push_cast at hcast
  linarith

section

variable {x : Binary64} {r : ℚ}

theorem Near.lt_zpow (h : x.Near r) : r < 2 ^ (x.exponent + 53) := by
  have hunit := x.unit_pos
  have hsignificand := x.significand_le
  have hhigh := h.high
  unfold magnitude gapAbove at hhigh
  rw [zpow_exponent_add]
  norm_num
  nlinarith

/-- Only at the least significand of an exponent does the neighbourhood reach below it. -/
theorem Near.startsBinade (h : x.Near r) (hlt : r < 2 ^ (x.exponent + 52))
    (hexponent : x.exponent ≠ -1074) : x.StartsBinade := by
  refine ⟨?_, hexponent⟩
  have hnormal := x.normal_or_least.resolve_right hexponent
  by_contra hne
  have hge : 2 ^ 52 + 1 ≤ x.significand := by omega
  have hcast : ((2 ^ 52 + 1 : Nat) : ℚ) ≤ x.significand := by exact_mod_cast hge
  have hunit := x.unit_pos
  have hbelow := x.gapBelow_le
  have hlow := h.low
  unfold magnitude at hlow
  push_cast at hcast
  rw [zpow_exponent_add] at hlt
  norm_num at hlt
  nlinarith

theorem Near.zpow_le (h : x.Near r) (hstart : x.StartsBinade) : 2 ^ (x.exponent + 51) ≤ r := by
  have hunit := x.unit_pos
  have hbelow := x.gapBelow_le
  have hlow := h.low
  rw [magnitude, hstart.1] at hlow
  rw [zpow_exponent_add]
  push_cast at hlow
  norm_num at hlow ⊢
  nlinarith

end

/-- The exponent of a ratio near the double is that of the double, or one less where the ratio is
below the least significand of that exponent. -/
theorem Near.ratioExponent {x : Binary64} {p q : Nat} (h : x.Near (p / q)) (hp : 0 < p)
    (hq : 0 < q) : ratioExponent p q = x.exponent ∨
      x.StartsBinade ∧ ratioExponent p q = x.exponent - 1 ∧
        (p / q : ℚ) < 2 ^ (x.exponent + 52) := by
  obtain ⟨hleast, hupper, hlower⟩ := ratioExponent_spec hp hq
  have hexponent := x.exponent_ge
  have hlt {m n : Int} (hmn : (2 : ℚ) ^ m < 2 ^ n) : m < n :=
    (zpow_lt_zpow_iff_right₀ one_lt_two).1 hmn
  have hbound {n : Int} (hn : (p / q : ℚ) < 2 ^ (n + 52)) (hleast : -1074 < n) :
      Binary64.ratioExponent p q < n := by
    rcases hlower with heq | hlower
    · omega
    · have := hlt (hlower.trans_lt hn)
      omega
  have hle : Binary64.ratioExponent p q < x.exponent + 1 := by
    refine hbound ?_ (by omega)
    rw [add_assoc]
    exact h.lt_zpow
  by_cases hreach : 2 ^ (x.exponent + 52) ≤ (p / q : ℚ)
  · left
    have := hlt (hreach.trans_lt hupper)
    omega
  · rw [not_le] at hreach
    by_cases hleastExponent : x.exponent = -1074
    · left
      omega
    right
    have hstart := h.startsBinade hreach hleastExponent
    refine ⟨hstart, ?_, hreach⟩
    have hge := hlt ((h.zpow_le hstart).trans_lt hupper)
    have hless := hbound hreach (by omega)
    omega

/-- A ratio near the double is rounded to it. -/
theorem Near.ofRatio {x : Binary64} {p q : Nat} (h : x.Near (p / q)) (hfinite : x.isFinite = true)
    (hp : 0 < p) (hq : 0 < q) : ofRatio x.negative p q = x := by
  have hunit := x.unit_pos
  have hden (e : Int) : 0 < q <<< e.toNat := by
    rw [Nat.shiftLeft_eq]
    positivity
  have hbelow := x.gapBelow_le
  rw [Binary64.ofRatio, if_neg hp.ne']
  dsimp only
  rcases h.ratioExponent hp hq with heq | ⟨hbinade, heq, hlt⟩
  · rw [heq]
    have hnearest : nearestEven (p <<< (-x.exponent).toNat) (q <<< x.exponent.toNat) =
        x.significand := by
      apply nearestEven_eq (hden _)
      · rw [shift_ratio, le_div_iff₀ hunit]
        have := h.low
        unfold magnitude at this
        linarith
      · rw [shift_ratio, div_le_iff₀ hunit]
        have := h.high
        unfold magnitude gapAbove at this
        linarith
      · intro hodd
        obtain ⟨hlow, hhigh⟩ := h.strict hodd
        unfold magnitude at hlow hhigh
        unfold gapAbove at hhigh
        rw [shift_ratio, lt_div_iff₀ hunit, div_lt_iff₀ hunit]
        constructor <;> linarith
    rw [hnearest, pack_significand hfinite]
  · have hexponent := x.exponent_ge
    have hhalf : (2 : ℚ) ^ (x.exponent - 1) = 2 ^ x.exponent / 2 := zpow_sub_one₀ two_ne_zero _
    have hlow := h.low
    rw [gapBelow, if_pos hbinade, magnitude, hbinade.1] at hlow
    rw [zpow_add₀ two_ne_zero] at hlt
    have hnearest : nearestEven (p <<< (-(x.exponent - 1)).toNat) (q <<< (x.exponent - 1).toNat) =
        2 ^ 53 := by
      apply nearestEven_eq (hden _)
      · rw [shift_ratio, hhalf, le_div_iff₀ (by positivity)]
        push_cast at hlow ⊢
        linarith
      · rw [shift_ratio, hhalf, div_le_iff₀ (by positivity)]
        push_cast at hlt ⊢
        norm_num at hlt ⊢
        linarith
      · intro hodd
        norm_num at hodd
    rw [heq, hnearest, pack_carry _ (by have := hbinade.2; omega), ← hbinade.1,
      pack_significand hfinite]

end ObjectGraph.Binary64
