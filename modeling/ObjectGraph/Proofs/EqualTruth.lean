import ObjectGraph.Evaluation
import ObjectGraph.Proofs.MixedEquality
import ObjectGraph.Proofs.ShortCircuit

/-!
# Truth of equal values

Truth looks at the number itself, equality of an integer and a double at the decimal of the
double, in which a number below the 28th place is lost. So zero is equal to doubles that are not
zero, and these are the only equal values that differ in truth: everywhere else an operand of a
negation or a connective may be replaced by one with an equal value.
-/
namespace ObjectGraph

open Decimal

namespace Binary64

variable {x : Binary64}

/-- Below this bound the decimal of a double is zero at the 28th place. -/
def lostBound : ℚ := 85 / (9 * 10 ^ 29)

/-- The number is not zero, but its decimal is. -/
def IsLost (x : Binary64) : Prop :=
  x.isFinite = true ∧ x.toRat ≠ 0 ∧ |x.toRat| < lostBound

theorem toRat_eq_zero_iff : x.toRat = 0 ↔ x.isZero = true := by
  have hpower : (2 : ℚ) ^ x.exponent ≠ 0 := by positivity
  have hmagnitude : x.magnitude = 0 ↔ x.isZero = true := by
    rw [isZero_iff, magnitude, mul_eq_zero, or_iff_left hpower, Nat.cast_eq_zero]
  unfold toRat
  split
  · rw [neg_eq_zero, hmagnitude]
  · exact hmagnitude

/-- The bound is no double, so the doubles from it on leave a gap. -/
theorem magnitude_of_lostBound_le (h : lostBound ≤ x.magnitude) :
    8424725963889347 / 2 ^ 146 ≤ x.magnitude := by
  have hsignificand : (x.significand : ℚ) < 2 ^ 53 := by exact_mod_cast x.significand_lt
  have hexponent : -146 ≤ x.exponent := by
    by_contra hsmall
    have hpower : (2 : ℚ) ^ x.exponent ≤ 2 ^ (-147 : Int) :=
      zpow_le_zpow_right₀ (by norm_num) (by omega)
    have hlt : x.magnitude < lostBound := by
      calc x.magnitude
        _ ≤ 2 ^ 53 * 2 ^ (-147 : Int) := by
          unfold magnitude
          gcongr
        _ < lostBound := by norm_num [lostBound]
    exact absurd h (not_le.2 hlt)
  obtain ⟨k, hk⟩ : ∃ k : Nat, x.exponent = k - 146 := ⟨(x.exponent + 146).toNat, by omega⟩
  have hvalue : x.magnitude = (x.significand * 2 ^ k : Nat) / 2 ^ 146 := by
    rw [magnitude, hk, zpow_sub₀ (by norm_num), zpow_natCast]
    push_cast
    norm_num
    ring
  have hcount : 8424725963889346 < x.significand * 2 ^ k := by
    rw [hvalue, lostBound, le_div_iff₀ (by positivity)] at h
    have hcast : (8424725963889346 : ℚ) < (x.significand * 2 ^ k : Nat) := by
      refine lt_of_lt_of_le ?_ h
      norm_num
    exact_mod_cast hcast
  rw [hvalue]
  gcongr
  exact_mod_cast hcount

end Binary64

namespace Value

variable {x : Binary64}

/-- Zero is equal to the doubles below the bound and to no others. -/
theorem integerEqualsFloat_zero_iff (hfinite : x.isFinite = true) :
    integerEqualsFloat 0 x = true ↔ |x.toRat| < Binary64.lostBound := by
  by_cases hwhole : ∃ k : Int, x.toRat = k
  · rw [integerEqualsFloat_of_whole hfinite hwhole]
    obtain ⟨k, hk⟩ := hwhole
    rw [hk, Int64.toInt_zero, Int.cast_inj]
    constructor
    · rintro rfl
      norm_num [Binary64.lostBound]
    · intro hsmall
      have hone : |(k : ℚ)| < 1 := hsmall.trans (by norm_num [Binary64.lostBound])
      exact Int.abs_lt_one_iff.1 (by exact_mod_cast hone)
  · have hfraction : x.IsFraction := fun k hk => hwhole ⟨k, hk⟩
    obtain ⟨hlower, hupper⟩ := Fixed.halved_toRat hfraction.exponent_neg
    rw [integerEqualsFloat_of_fraction hfinite hfraction, x.abs_toRat]
    obtain ⟨hlost, hsmall⟩ | ⟨hrounding, hlarge⟩ := hfraction.rounded_cases
    · refine iff_of_true ?_ ?_
      · rw [hlost]
        simp [Fixed.toRat, Binary64.unsigned]
      · -- Absorbing halves loses less than what separates the bound from the next double.
        by_contra hnot
        have hgap := Binary64.magnitude_of_lostBound_le (not_lt.1 hnot)
        norm_num at hlower hsmall hgap
        linarith
    · refine iff_of_false ?_ ?_
      · have hpos : 0 < (Fixed.rounded (Fixed.halved x)).toRat := by
          have hone : (1 : ℚ) ≤ (Fixed.rounded (Fixed.halved x)).coefficient := by
            exact_mod_cast hrounding.pos
          unfold Fixed.toRat
          positivity
        simpa [Binary64.unsigned] using hpos.ne'
      · unfold Binary64.lostBound
        norm_num at hlarge ⊢
        linarith

/-- The integer zero beside a double that it is wrongly equal to. -/
def TakenForZero (a b : Value) : Prop :=
  ∃ x : Binary64, x.IsLost ∧ (a = .integer 0 ∧ b = .float x ∨ a = .float x ∧ b = .integer 0)

theorem isFinite_of_integerEqualsFloat {n : Int64} (h : integerEqualsFloat n x = true) :
    x.isFinite = true := by
  by_contra hinfinite
  have hnone : Fixed.ofBinary64? x = none := by simp [Fixed.ofBinary64?, hinfinite]
  rw [integerEqualsFloat, hnone] at h
  cases h

/-- Where an integer and a double are equal but differ in truth, the double is taken for zero. -/
theorem truthy_ne_iff_of_integer {n : Int64} :
    ((integer n).equals (float x) = true ∧ (integer n).truthy ≠ (float x).truthy) ↔
      n = 0 ∧ x.IsLost := by
  have htruthy : (integer n).truthy ≠ (float x).truthy ↔ (n = 0 ↔ x.isZero = false) := by
    by_cases hn : n = 0 <;> cases hzero : x.isZero <;> simp [truthy, hn, hzero]
  rw [htruthy]
  change integerEqualsFloat n x = true ∧ _ ↔ _
  constructor
  · rintro ⟨hequal, hdiffer⟩
    have hfinite := isFinite_of_integerEqualsFloat hequal
    have hn : n = 0 := by
      by_contra hn
      have hzero : x.isZero = true := by simpa [hn] using hdiffer
      have hvalue : x.toRat = (0 : Int) := by simpa using Binary64.toRat_eq_zero_iff.2 hzero
      rw [integerEqualsFloat_of_whole hfinite ⟨0, hvalue⟩, hvalue, Int.cast_inj] at hequal
      exact hn (Int64.toInt_inj.1 (by simpa using hequal.symm))
    subst hn
    refine ⟨rfl, hfinite, ?_, (integerEqualsFloat_zero_iff hfinite).1 hequal⟩
    rw [Ne, Binary64.toRat_eq_zero_iff, hdiffer.1 rfl]
    exact Bool.false_ne_true
  · rintro ⟨rfl, hfinite, hvalue, hsmall⟩
    refine ⟨(integerEqualsFloat_zero_iff hfinite).2 hsmall, iff_of_true rfl ?_⟩
    rwa [Ne, Binary64.toRat_eq_zero_iff, Bool.not_eq_true] at hvalue

theorem isZero_of_eq {x y : Binary64} (h : x.eq y = true) : x.isZero = y.isZero := by
  simp only [Binary64.eq, Bool.and_eq_true, Bool.or_eq_true, decide_eq_true_eq] at h
  obtain ⟨-, rfl | ⟨hx, hy⟩⟩ := h
  · rfl
  · rw [hx, hy]

/-- Equal values have the same truth, unless one is zero and the other is taken for it. -/
theorem truthy_ne_iff {a b : Value} :
    (a.equals b = true ∧ a.truthy ≠ b.truthy) ↔ TakenForZero a b := by
  constructor
  · rintro ⟨hequal, hdiffer⟩
    cases a with
    | null =>
      cases b with
      | null => exact absurd rfl hdiffer
      | _ => cases hequal
    | boolean p =>
      cases b with
      | boolean q =>
        obtain rfl : p = q := by simpa [equals] using hequal
        exact absurd rfl hdiffer
      | _ => cases hequal
    | integer m =>
      cases b with
      | integer n =>
        obtain rfl : m = n := by simpa [equals] using hequal
        exact absurd rfl hdiffer
      | float x =>
        obtain ⟨rfl, hx⟩ := truthy_ne_iff_of_integer.1 ⟨hequal, hdiffer⟩
        exact ⟨x, hx, .inl ⟨rfl, rfl⟩⟩
      | _ => cases hequal
    | float x =>
      cases b with
      | integer n =>
        obtain ⟨rfl, hx⟩ := truthy_ne_iff_of_integer.1 ⟨hequal, hdiffer.symm⟩
        exact ⟨x, hx, .inr ⟨rfl, rfl⟩⟩
      | float y => exact absurd (congrArg (! ·) (isZero_of_eq hequal)) hdiffer
      | _ => cases hequal
    | string s =>
      cases b with
      | string t =>
        obtain rfl : s = t := by simpa [equals] using hequal
        exact absurd rfl hdiffer
      | _ => cases hequal
    | array as =>
      cases b with
      | array bs => exact absurd rfl hdiffer
      | _ => cases hequal
    | map as =>
      cases b with
      | map bs => exact absurd rfl hdiffer
      | _ => cases hequal
    | object o =>
      cases b with
      | object o' => exact absurd rfl hdiffer
      | _ => cases hequal
  · rintro ⟨x, hx, ⟨rfl, rfl⟩ | ⟨rfl, rfl⟩⟩
    · exact truthy_ne_iff_of_integer.2 ⟨rfl, hx⟩
    · obtain ⟨hequal, hdiffer⟩ := truthy_ne_iff_of_integer.2 ⟨rfl, hx⟩
      exact ⟨hequal, hdiffer.symm⟩

/-- The same value, or one that is equal and not taken for zero. -/
def Matches (v v' : Value) : Prop := v = v' ∨ v.equals v' = true ∧ ¬ TakenForZero v v'

theorem Matches.refl (v : Value) : v.Matches v := .inl rfl

theorem Matches.truthy {v v' : Value} (h : v.Matches v') : v.truthy = v'.truthy := by
  obtain rfl | ⟨hequal, hzero⟩ := h
  · rfl
  · by_contra hdiffer
    exact hzero (truthy_ne_iff.1 ⟨hequal, hdiffer⟩)

end Value

/-! ## Operands -/

/-- In every world the runs do the same and come to the same error or to matching values. -/
def Interchangeable {σ : Type} (a a' : Run σ EvalError Value) : Prop :=
  ∀ w, ∃ u, (∃ e, a w = (.error e, u) ∧ a' w = (.error e, u)) ∨
    ∃ v v', a w = (.ok v, u) ∧ a' w = (.ok v', u) ∧ v.Matches v'

namespace Interchangeable

variable {σ : Type} {a a' : Run σ EvalError Value}

theorem refl (a : Run σ EvalError Value) : Interchangeable a a := by
  intro w
  rcases hrun : a w with ⟨_ | v, u⟩
  · exact ⟨u, .inl ⟨_, rfl, rfl⟩⟩
  · exact ⟨u, .inr ⟨v, v, rfl, rfl, .refl v⟩⟩

theorem pure {v v' : Value} (h : v.Matches v') :
    Interchangeable (Pure.pure v : Run σ EvalError Value) (Pure.pure v') :=
  fun w => ⟨w, .inr ⟨v, v', rfl, rfl, h⟩⟩

theorem bind {f f' : Value → Run σ EvalError Value} (h : Interchangeable a a')
    (hf : ∀ v v', v.Matches v' → Interchangeable (f v) (f' v')) :
    Interchangeable (a >>= f) (a' >>= f') := by
  intro w
  obtain ⟨u, ⟨e, ha, ha'⟩ | ⟨v, v', ha, ha', hv⟩⟩ := h w
  · exact ⟨u, .inl ⟨e, Action.bind_of_error ha, Action.bind_of_error ha'⟩⟩
  · rw [Action.bind_of_ok ha, Action.bind_of_ok ha']
    exact hf v v' hv u

theorem bind_eq {f : Value → Run σ EvalError Value} (h : Interchangeable a a')
    (hf : ∀ v v', v.Matches v' → f v = f v') : a >>= f = a' >>= f := by
  funext w
  obtain ⟨u, ⟨e, ha, ha'⟩ | ⟨v, v', ha, ha', hv⟩⟩ := h w
  · rw [Action.bind_of_error ha, Action.bind_of_error ha']
  · rw [Action.bind_of_ok ha, Action.bind_of_ok ha', hf v v' hv]

variable {classes : Registry σ} {ctx : Context σ} {here : Value} {e e' : Expr}

theorem not (h : Interchangeable (e.evaluate classes ctx here) (e'.evaluate classes ctx here)) :
    (Expr.not e).evaluate classes ctx here = (Expr.not e').evaluate classes ctx here :=
  h.bind_eq fun v v' hv => by rw [hv.truthy]

/-- Both runs are decided by the same operand or by none. -/
theorem operands (op : Connective) (xs ys : List Expr) (last last' : Value)
    (h : Interchangeable (e.evaluate classes ctx here) (e'.evaluate classes ctx here)) :
    Interchangeable (Expr.evaluateOperands classes ctx op (xs ++ e :: ys) last here)
      (Expr.evaluateOperands classes ctx op (xs ++ e' :: ys) last' here) := by
  induction xs generalizing last last' with
  | nil =>
    refine h.bind fun v v' hv => ?_
    rw [← hv.truthy]
    split
    · exact .pure hv
    · cases ys with
      | nil => exact .pure hv
      | cons y ys => exact .refl _
  | cons x xs ih =>
    refine (refl (x.evaluate classes ctx here)).bind fun v v' hv => ?_
    rw [← hv.truthy]
    split
    · exact .pure hv
    · exact ih v v'

end Interchangeable

/-- Two equal values differ in truth exactly when one is the integer zero and the other a double
that is not zero but below the 28th place. So an operand may be replaced by one with an equal
value, such a pair apart, in a negation without any change, and in a connective with no other
change than this replacement in its outcome. -/
theorem equal_values_differ_in_truth_iff (a b : Value) :
    ((a.equals b = true ∧ a.truthy ≠ b.truthy) ↔ Value.TakenForZero a b) ∧
      ∀ {σ : Type} (classes : Registry σ) (ctx : Context σ) (here : Value) (e e' : Expr),
        Interchangeable (e.evaluate classes ctx here) (e'.evaluate classes ctx here) →
          (Expr.not e).evaluate classes ctx here = (Expr.not e').evaluate classes ctx here ∧
          ∀ op xs ys, Interchangeable ((Expr.logical op (xs ++ e :: ys)).evaluate classes ctx here)
            ((Expr.logical op (xs ++ e' :: ys)).evaluate classes ctx here) :=
  ⟨Value.truthy_ne_iff, fun _ _ _ _ _ h => ⟨h.not, fun op xs ys => h.operands op xs ys _ _⟩⟩

/-- The double nearest to `10 ^ -30` is equal to zero, but only zero is false. -/
theorem tiny_double_differs_in_truth_from_zero :
    let zero := Value.integer 0
    let tiny := Value.float ⟨0x39b4484bfeebc2a0⟩
    zero.equals tiny = true ∧ zero.truthy = false ∧ tiny.truthy = true := by
  decide +kernel

/-- Three may stand for the double three in a connective; zero and the tiny double are excluded. -/
theorem integer_three_for_double_three :
    let three : Binary64 := ⟨0x4008000000000000⟩
    let classes : Registry Unit := fun _ => ClassTable.empty
    let ctx := Context.new (σ := Unit) .null
    Value.TakenForZero (.integer 0) (.float ⟨0x39b4484bfeebc2a0⟩) ∧
      ¬ Value.TakenForZero (.integer 3) (.float three) ∧
      (Expr.not (.const (.integer 3))).evaluate classes ctx .null =
        (Expr.not (.const (.float three))).evaluate classes ctx .null ∧
      Interchangeable
        ((Expr.logical .and ([.root] ++ .const (.integer 3) :: [])).evaluate classes ctx .null)
        ((Expr.logical .and ([.root] ++ .const (.float three) :: [])).evaluate classes ctx
          .null) := by
  intro three classes ctx
  have htaken := (equal_values_differ_in_truth_iff (.integer 0)
    (.float ⟨0x39b4484bfeebc2a0⟩)).1.1 ⟨by decide +kernel, by decide⟩
  obtain ⟨hiff, hreplace⟩ := equal_values_differ_in_truth_iff (.integer 3) (.float three)
  have hnot : ¬ Value.TakenForZero (.integer 3) (.float three) :=
    fun h => (hiff.2 h).2 (by decide)
  obtain ⟨hnegation, hconnective⟩ := hreplace classes ctx .null (.const (.integer 3))
    (.const (.float three)) (.pure (.inr ⟨by decide +kernel, hnot⟩))
  exact ⟨htaken, hnot, hnegation, hconnective .and [.root] []⟩

end ObjectGraph
