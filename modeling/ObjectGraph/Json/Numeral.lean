import ObjectGraph.Binary64.Rounding
import ObjectGraph.Decimal.Layout

/-!
# JSON numbers

A numeral is the number as written: a sign, whole digits, perhaps a fraction and
perhaps an exponent. A numeral without fraction and exponent is an integer when it
fits 64 bits; every other one is a double. The double is computed from the leading
digits that fit an unsigned 64-bit significand by one product or quotient with a
power of ten, each rounded, so it is not always the nearest one.
-/
namespace ObjectGraph.Json

inductive Number
  | integer (n : Int64)
  /-- A whole number above the signed range. -/
  | large (n : UInt64) (beyond : 0x8000000000000000 ≤ n.toNat)
  | float (x : Binary64) (finite : x.isFinite = true)

namespace Number

def ofFinite? (x : Binary64) : Option Number :=
  if h : x.isFinite = true then some (float x h) else none

def ofUInt64 (n : UInt64) : Number :=
  if h : 0x8000000000000000 ≤ n.toNat then large n h else integer (Int64.ofNat n.toNat)

def text : Number → String
  | integer n => toString n.toInt
  | large n _ => toString n.toNat
  | float x _ => Decimal.json.text x

end Number

structure Numeral where
  negative : Bool
  whole : List Nat
  fraction : Option (List Nat)
  exponent : Option Int

namespace Numeral

def digitValue (c : Char) : Nat := c.toNat - '0'.toNat

def digitsValue (digits : List Nat) : Nat := digits.foldl (fun n d => 10 * n + d) 0

/-- The digits at the front, at least one, and what follows them. -/
def digits? (cs : List Char) : Option (List Nat × List Char) :=
  match cs.takeWhile Char.isDigit with
  | [] => none
  | ds => some (ds.map digitValue, cs.dropWhile Char.isDigit)

def whole? (cs : List Char) : Option (List Nat × List Char) :=
  match digits? cs with
  | some (0 :: _ :: _, _) => none
  | found => found

def fraction? : List Char → Option (Option (List Nat) × List Char)
  | '.' :: rest => (digits? rest).map fun (ds, after) => (some ds, after)
  | cs => some (none, cs)

def exponentDigits? (sign : Int) (cs : List Char) : Option Int :=
  match digits? cs with
  | some (ds, []) => some (sign * digitsValue ds)
  | _ => none

def exponent? : List Char → Option (Option Int)
  | [] => some none
  | mark :: rest =>
    if mark = 'e' ∨ mark = 'E' then
      match rest with
      | '+' :: digits => (exponentDigits? 1 digits).map some
      | '-' :: digits => (exponentDigits? (-1) digits).map some
      | digits => (exponentDigits? 1 digits).map some
    else none

/-- Reads a numeral: no leading zeros, digits on both sides of a point. -/
def ofChars? (cs : List Char) : Option Numeral := do
  let (negative, unsigned) := match cs with
    | '-' :: rest => (true, rest)
    | _ => (false, cs)
  let (whole, rest) ← whole? unsigned
  let (fraction, rest) ← fraction? rest
  let exponent ← exponent? rest
  return { negative, whole, fraction, exponent }

/-- Appends digits to a significand while it fits 64 bits; returns the significand and the
digits left over. -/
def significand (start : Nat) : List Nat → Nat × List Nat
  | [] => (start, [])
  | d :: ds => if start * 10 + d < 0x10000000000000000 then significand (start * 10 + d) ds
    else (start, d :: ds)

def power (n : Nat) : Binary64 := Binary64.ofNat (Nat.pow 10 n)

/-- `significand * 10 ^ exponent` with a rounding at each step; nothing on overflow.
Two divisions by `10 ^ 308` take any 64-bit significand to zero. -/
def scaled? (significand : Nat) (exponent : Int) : Option Binary64 :=
  let start := Binary64.ofNat significand
  if 308 < exponent then
    if significand = 0 then some start else none
  else if 0 ≤ exponent then
    let product := start.mul (power exponent.toNat)
    if product.isFinite then some product else none
  else
    let places := (-exponent).toNat
    if places ≤ 308 then some (start.div (power places))
    else if places ≤ 616 then some ((start.div (power 308)).div (power (places - 308)))
    else some Binary64.zero

def float? (negative : Bool) (significand : Nat) (exponent : Int) : Option Number :=
  (scaled? significand exponent).bind fun x => Number.ofFinite? (if negative then x.neg else x)

/-- A whole numeral whose digits fit 64 bits; a negative zero or one below the signed
range is a double. -/
def integer? (negative : Bool) (n : Nat) : Option Number :=
  if !negative then some (Number.ofUInt64 (UInt64.ofNat n))
  else if n = 0 ∨ 0x8000000000000000 < n then Number.ofFinite? (Binary64.ofNat n).neg
  else some (.integer (Int64.ofInt (-n)))

/-- The number of a numeral; nothing when it overflows a double. -/
def number? (numeral : Numeral) : Option Number :=
  match significand 0 numeral.whole, numeral.fraction, numeral.exponent with
  | (n, []), none, none => integer? numeral.negative n
  | (n, left), fraction, exponent =>
    let places := fraction.getD []
    let (n, unused) := significand n places
    float? numeral.negative n
      (left.length - (places.length - unused.length : Nat) + exponent.getD 0)

end Numeral
end ObjectGraph.Json
