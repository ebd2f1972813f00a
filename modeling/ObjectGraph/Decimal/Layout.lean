import ObjectGraph.Decimal.Shortest

/-!
# Text of a number

A layout says how the shortest digits of a double are written: which decimal
exponents are written out in full, whether a whole number carries `.0`, whether a
positive exponent has a sign, and where an exact tie goes. `plain` is the text of
a value, `exact` the text of a constant, `json` the text of a JSON number.
-/
namespace ObjectGraph.Decimal

structure Layout where
  /-- The least and greatest exponent written in full; all when absent. -/
  positional : Option (Int × Int)
  pointZero : Bool
  plusSign : Bool
  tie : Tie

/-- Never an exponent, and a whole number without a point. -/
def plain : Layout := ⟨none, false, false, .up⟩

/-- Always a point or an exponent. -/
def exact : Layout := ⟨some (-4, 15), true, false, .up⟩

def json : Layout := ⟨some (-5, 15), true, true, .even⟩

def zeros (n : Nat) : String := String.ofList (List.replicate n '0')

namespace Layout

def isPositional (layout : Layout) (exponent : Int) : Bool :=
  match layout.positional with
  | none => true
  | some (least, greatest) => least ≤ exponent && exponent ≤ greatest

/-- Digits with the point before the position `point`, counted from the first digit. -/
def positionalText (layout : Layout) (digits : List Char) (point : Int) : String :=
  if point ≤ 0 then "0." ++ zeros (-point).toNat ++ String.ofList digits
  else if digits.length ≤ point.toNat then
    String.ofList digits ++ zeros (point.toNat - digits.length) ++
      (if layout.pointZero then ".0" else "")
  else String.ofList (digits.take point.toNat) ++ "." ++ String.ofList (digits.drop point.toNat)

def exponentText (layout : Layout) (digits : List Char) (exponent : Int) : String :=
  let fraction := digits.drop 1
  String.ofList (digits.take 1) ++
    (if fraction.isEmpty then "" else "." ++ String.ofList fraction) ++
    "e" ++ (if layout.plusSign && 0 ≤ exponent then "+" else "") ++ toString exponent

/-- The text of a positive decimal. -/
def decimalText (layout : Layout) (d : Decimal) : String :=
  let digits := Nat.toDigits 10 d.digits
  let point : Int := digits.length + d.exponent
  if layout.isPositional (point - 1) then layout.positionalText digits point
  else layout.exponentText digits (point - 1)

/-- The text of any number; the sign of a zero is kept, the sign of NaN is not. -/
def text (layout : Layout) (x : Binary64) : String :=
  if x.isNaN then "NaN"
  else
    (if x.negative then "-" else "") ++
      (if x.isInfinite then "inf"
      else if x.isZero then (if layout.pointZero then "0.0" else "0")
      else layout.decimalText (shortest layout.tie x))

end Layout
end ObjectGraph.Decimal
