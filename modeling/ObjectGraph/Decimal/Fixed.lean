import ObjectGraph.Binary64

/-!
# Doubles as 96-bit decimals

A decimal here is a 96-bit coefficient over a power of ten of at most 28 places.
`Fixed.ofBinary64?` converts a double in six passes over a coefficient and a
decimal exponent. It drops what a 96-bit coefficient cannot hold and rounds a
fraction to the sixteen or so digits that a double determines, so it is a
rounding and not the exact value of the double.
-/
namespace ObjectGraph.Decimal

/-- The number `coefficient * 10 ^ exponent`, with the sign of the double. -/
structure Fixed where
  coefficient : Nat
  exponent : Int
  deriving DecidableEq

namespace Fixed

/-- The coefficient is a 96-bit number. -/
def limit : Nat := 0x1000000000000000000000000

/-- Trades `count` factors of one half for decimal places: halves the coefficient
when it is even, else multiplies by five, else drops the last bit. -/
def absorbHalves : Nat → Fixed → Fixed
  | 0, d => d
  | count + 1, ⟨b, e⟩ =>
    absorbHalves count <|
      if b % 2 = 0 then ⟨b / 2, e + 1⟩
      else if 5 * b < limit then ⟨5 * b, e⟩
      else ⟨b / 2, e + 1⟩

/-- Trades `count` factors of two: doubles the coefficient while its top bit is clear,
else divides by five. -/
def absorbDoubles : Nat → Fixed → Option Fixed
  | 0, d => some d
  | count + 1, ⟨b, e⟩ =>
    if b < limit / 2 then absorbDoubles count ⟨2 * b, e - 1⟩
    else if e * 2 > (count + 1 : Nat) then none
    else absorbDoubles count ⟨b / 5, e⟩

/-- Multiplies out `count` factors of ten. -/
def absorbTens : Nat → Fixed → Option Fixed
  | 0, d => some d
  | count + 1, ⟨b, e⟩ =>
    if 10 * b < limit then absorbTens count ⟨10 * b, e - 1⟩ else none

/-- Rounds away the last digit, a five upward. -/
def dropDigit (d : Fixed) : Fixed :=
  ⟨if 5 ≤ d.coefficient % 10 then d.coefficient / 10 + 1 else d.coefficient / 10, d.exponent + 1⟩

/-- Drops `count` digits beyond the 28th place; a coefficient that reaches zero on the
way is the number zero. -/
def limitPlaces : Nat → Fixed → Fixed
  | 0, d => d
  | count + 1, d =>
    if d.coefficient / 10 = 0 then ⟨0, 0⟩ else limitPlaces count d.dropDigit

/-- Rounds a fraction down to a coefficient below `2 ^ 52`. -/
def limitDigits : Nat → Fixed → Fixed
  | 0, d => d
  | count + 1, d => if 0x10000000000000 ≤ d.coefficient then limitDigits count d.dropDigit else d

/-- Removes the zeros at the end of a fraction. -/
def trimZeros : Nat → Fixed → Fixed
  | 0, d => d
  | count + 1, d =>
    if d.coefficient % 10 = 0 then trimZeros count ⟨d.coefficient / 10, d.exponent + 1⟩ else d

/-- The places after the point. -/
def places (d : Fixed) : Nat := (-d.exponent).toNat

/-- The decimal of a finite double, up to its sign. -/
def ofBinary64? (x : Binary64) : Option Fixed :=
  if !x.isFinite then none
  else if x.isZero then some ⟨0, 0⟩
  else
    let start := absorbHalves (-x.exponent).toNat ⟨x.significand, x.exponent⟩
    (absorbDoubles x.exponent.toNat start).bind fun doubled =>
    (absorbTens doubled.exponent.toNat doubled).map fun d =>
    let d := limitPlaces (d.places - 28) d
    let d := limitDigits d.places d
    trimZeros d.places d

/-- Whether the decimal, negated when `negative`, is the integer `i`. -/
def isInteger (negative : Bool) (d : Fixed) (i : Int) : Bool :=
  (if negative then -(d.coefficient : Int) else d.coefficient) =
    i * (Nat.pow 10 d.places : Nat)

end Fixed
end ObjectGraph.Decimal
