import ObjectGraph.Binary64

/-!
# The fewest digits that read back

Of the decimals that a double is the nearest to, `shortest` picks one of fewest
digits and, of those, the one nearest to the number. For each digit count the
number has two neighbours on the decimal grid; the first grid with a neighbour
inside the rounding interval wins. All comparisons are on integers.
-/
namespace ObjectGraph

/-- The positive number `digits * 10 ^ exponent`. -/
structure Decimal where
  digits : Nat
  exponent : Int
  deriving DecidableEq

namespace Decimal

/-- Which neighbour to take when the number lies halfway between two candidates. -/
inductive Tie
  | up
  | even
  deriving DecidableEq

/-- The count of decimal digits of a positive number. -/
def length (n : Nat) : Nat := (Nat.toDigits 10 n).length

/-- Scales a fraction by a power of ten: numerator and denominator of
`num / den * 10 ^ shift`. -/
def shifted (num den : Nat) (shift : Int) : Nat × Nat :=
  (num * Nat.pow 10 shift.toNat, den * Nat.pow 10 (-shift).toNat)

/-- The least `k` with `num / den < 10 ^ k`. -/
def magnitude (num den : Nat) : Int :=
  if den ≤ num then length (num / den) else 1 - (length ((den + num - 1) / num - 1) : Int)

/-- Removes the zeros at the end of the digits. -/
def trim : Nat → Decimal → Decimal
  | 0, d => d
  | fuel + 1, d =>
    if d.digits % 10 = 0 then trim fuel ⟨d.digits / 10, d.exponent + 1⟩ else d

/-- The reals that round to a number: quarter units `num ± gap` over a common
denominator, the ends included when the significand is even. -/
structure Interval where
  num : Nat
  den : Nat
  below : Nat
  above : Nat
  closed : Bool

def Interval.of (x : Binary64) : Interval :=
  let atBinadeStart : Bool := x.significand = 0x10000000000000 && x.exponent ≠ -1074
  let unit := 1 <<< x.exponent.toNat
  { num := 4 * x.significand * unit
    den := 4 <<< (-x.exponent).toNat
    below := if atBinadeStart then unit else 2 * unit
    above := 2 * unit
    closed := x.significand % 2 = 0 }

/-- Whether `digits * 10 ^ exponent` rounds to the number. -/
def Interval.contains (i : Interval) (d : Decimal) : Bool :=
  let (num, den) := shifted i.num i.den (-d.exponent)
  let (below, _) := shifted i.below i.den (-d.exponent)
  let (above, _) := shifted i.above i.den (-d.exponent)
  let place := d.digits * den
  if i.closed then num ≤ place + below && place ≤ num + above
  else num < place + below && place < num + above

/-- The candidate on the grid of `10 ^ exponent`, if one lies in the interval. -/
def Interval.candidate? (i : Interval) (tie : Tie) (exponent : Int) : Option Decimal :=
  let (num, den) := shifted i.num i.den (-exponent)
  let low := num / den
  let twice := 2 * (num % den)
  let floor : Decimal := ⟨low, exponent⟩
  let ceil : Decimal := ⟨low + 1, exponent⟩
  match low ≠ 0 && i.contains floor, i.contains ceil with
  | false, false => none
  | true, false => some floor
  | false, true => some ceil
  | true, true =>
    if twice < den then some floor
    else if den < twice then some ceil
    else match tie with
      | .up => some ceil
      | .even => some (if low % 2 = 0 then floor else ceil)

/-- Tries the grids of `count`, `count + 1`, … digits. -/
def Interval.search (i : Interval) (tie : Tie) (magnitude : Int) : Nat → Int → Option Decimal
  | 0, _ => none
  | grids + 1, count =>
    match i.candidate? tie (magnitude - count) with
    | some d => some d
    | none => i.search tie magnitude grids (count + 1)

/-- The shortest decimal of a finite number other than zero. Seventeen digits
always suffice. -/
def shortest (tie : Tie) (x : Binary64) : Decimal :=
  let interval := Interval.of x
  let found := interval.search tie (magnitude interval.num interval.den) 17 1
  trim 17 (found.getD ⟨interval.num / interval.den, 0⟩)

end Decimal
end ObjectGraph
