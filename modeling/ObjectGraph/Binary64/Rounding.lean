import ObjectGraph.Binary64

/-!
# Rounding to double precision

`ofRatio` is the nearest double of an exact ratio, ties to the even significand,
with gradual underflow and overflow to infinity. Products and quotients are the
exact result, rounded once.
-/
namespace ObjectGraph.Binary64

/-- The nearest integer of `num / den`, ties to even. -/
def nearestEven (num den : Nat) : Nat :=
  let low := num / den
  let twice := 2 * (num % den)
  if twice < den then low
  else if den < twice then low + 1
  else low + low % 2

/-- The power of two that puts `num / den` into `[2 ^ 52, 2 ^ 53)`, but never
below the weight of the last subnormal bit. -/
def ratioExponent (num den : Nat) : Int :=
  let guess : Int := (num.log2 : Int) - den.log2 - 52
  let reaches := den <<< (52 + guess).toNat ≤ num <<< (-(52 + guess)).toNat
  max (if reaches then guess else guess - 1) (-1074)

/-- Packs `significand * 2 ^ exponent`; a carry out of the significand moves to the
next exponent because the two fields are adjacent. -/
def pack (negative : Bool) (significand : Nat) (exponent : Int) : Binary64 :=
  let magnitude := (exponent + 1074).toNat * 0x10000000000000 + significand
  let capped := min magnitude (2047 * 0x10000000000000)
  ⟨UInt64.ofNat (if negative then 0x8000000000000000 + capped else capped)⟩

/-- The nearest double of `± num / den`. -/
def ofRatio (negative : Bool) (num den : Nat) : Binary64 :=
  if num = 0 then pack negative 0 (-1074)
  else
    let exponent := ratioExponent num den
    pack negative (nearestEven (num <<< (-exponent).toNat) (den <<< exponent.toNat)) exponent

def ofNat (n : Nat) : Binary64 := ofRatio false n 1

/-- The numerator of a finite number's absolute value over `denominator`. -/
def numerator (x : Binary64) : Nat := x.significand <<< x.exponent.toNat

def denominator (x : Binary64) : Nat := 1 <<< (-x.exponent).toNat

/-- The product of finite numbers. -/
def mul (x y : Binary64) : Binary64 :=
  ofRatio (x.negative != y.negative) (x.numerator * y.numerator) (x.denominator * y.denominator)

/-- The quotient of finite numbers, for a divisor other than zero. -/
def div (x y : Binary64) : Binary64 :=
  ofRatio (x.negative != y.negative) (x.numerator * y.denominator) (x.denominator * y.numerator)

/-- The nearest double of `± digits * 10 ^ exponent`. -/
def ofDecimal (negative : Bool) (digits : Nat) (exponent : Int) : Binary64 :=
  ofRatio negative (digits * Nat.pow 10 exponent.toNat) (Nat.pow 10 (-exponent).toNat)

end ObjectGraph.Binary64
