/-!
# Double-precision numbers

A number is its 64-bit pattern: a sign, eleven exponent bits and 52 fraction
bits. A finite pattern stands for `± significand * 2 ^ exponent` exactly; all
arithmetic on these numbers is stated on that integer pair. Two bounds recur:
`0x10000000000000` is `2 ^ 52`, one above the largest fraction, and
`0x8000000000000000` is `2 ^ 63`, the sign bit.
-/
namespace ObjectGraph

structure Binary64 where
  bits : UInt64
  deriving DecidableEq

namespace Binary64

def negative (x : Binary64) : Bool := 0x8000000000000000 ≤ x.bits.toNat

def exponentField (x : Binary64) : Nat := x.bits.toNat / 0x10000000000000 % 2048

def fraction (x : Binary64) : Nat := x.bits.toNat % 0x10000000000000

def isNaN (x : Binary64) : Bool := x.exponentField = 2047 && x.fraction ≠ 0

def isInfinite (x : Binary64) : Bool := x.exponentField = 2047 && x.fraction = 0

def isFinite (x : Binary64) : Bool := x.exponentField ≠ 2047

/-- Both zeros. -/
def isZero (x : Binary64) : Bool := x.exponentField = 0 && x.fraction = 0

/-- The integer significand; below `2 ^ 52` for subnormal numbers only. -/
def significand (x : Binary64) : Nat :=
  if x.exponentField = 0 then x.fraction else 0x10000000000000 + x.fraction

/-- The weight of the significand's last bit, as a power of two. -/
def exponent (x : Binary64) : Int :=
  if x.exponentField = 0 then -1074 else x.exponentField - 1075

/-- Numeric comparison: the two zeros are equal and NaN equals nothing. -/
def eq (x y : Binary64) : Bool :=
  !x.isNaN && !y.isNaN && (x = y || (x.isZero && y.isZero))

def neg (x : Binary64) : Binary64 := ⟨x.bits ^^^ 0x8000000000000000⟩

def zero : Binary64 := ⟨0⟩

def infinity : Binary64 := ⟨0x7ff0000000000000⟩

def nan : Binary64 := ⟨0x7ff8000000000000⟩

theorem eq_comm (x y : Binary64) : x.eq y = y.eq x := by
  unfold eq
  rw [show decide (x = y) = decide (y = x) from decide_eq_decide.2 Eq.comm]
  cases x.isNaN <;> cases y.isNaN <;> cases x.isZero <;> cases y.isZero <;> rfl

/-- Only NaN differs from itself. -/
@[simp] theorem eq_self (x : Binary64) : x.eq x = !x.isNaN := by
  simp [eq]

end Binary64
end ObjectGraph
