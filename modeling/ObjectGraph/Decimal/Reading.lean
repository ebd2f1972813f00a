import ObjectGraph.Binary64.Rounding

/-!
# Reading decimal text

A decimal text is a sign, digits with at most one point among them, and perhaps an
exponent, or one of the words for infinity and NaN in any case. It is read as the
nearest double.
-/
namespace ObjectGraph.Decimal

def lowerAscii (c : Char) : Char :=
  if 'A' ≤ c ∧ c ≤ 'Z' then Char.ofNat (c.toNat + 32) else c

/-- Digits as a number, and how many there are. -/
def digitRun (cs : List Char) : Nat × Nat :=
  let ds := cs.takeWhile Char.isDigit
  (ds.foldl (fun n c => 10 * n + (c.toNat - '0'.toNat)) 0, ds.length)

def signed (cs : List Char) : Bool × List Char :=
  match cs with
  | '-' :: rest => (true, rest)
  | '+' :: rest => (false, rest)
  | _ => (false, cs)

def exponentOf? : List Char → Option Int
  | [] => some 0
  | mark :: rest =>
    let (negative, digits) := signed rest
    if lowerAscii mark = 'e' && !digits.isEmpty && digits.all Char.isDigit then
      let n : Int := (digitRun digits).1
      some (if negative then -n else n)
    else none

/-- The nearest double of the digits; an exponent far out of range is cut to one that
still overflows or underflows. -/
def nearest (negative : Bool) (digits count : Nat) (exponent : Int) : Binary64 :=
  if digits = 0 then Binary64.ofDecimal negative 0 0
  else Binary64.ofDecimal negative digits (max (min exponent 400) (-(count : Int) - 400))

def number? (negative : Bool) (cs : List Char) : Option Binary64 :=
  let (whole, wholeCount) := digitRun cs
  let rest := cs.dropWhile Char.isDigit
  let (fraction, tail) := match rest with
    | '.' :: after => (after.takeWhile Char.isDigit, after.dropWhile Char.isDigit)
    | _ => ([], rest)
  let places := fraction.length
  if wholeCount + places = 0 then none
  else
    (exponentOf? tail).map fun exponent =>
      nearest negative (whole * Nat.pow 10 places + (digitRun fraction).1) (wholeCount + places)
        (exponent - places)

/-- The double of a decimal text. -/
def read? (text : String) : Option Binary64 :=
  let (negative, rest) := signed text.toList
  let word := String.ofList (rest.map lowerAscii)
  let signedBy (x : Binary64) : Binary64 := if negative then x.neg else x
  if word = "nan" then some (signedBy Binary64.nan)
  else if word = "inf" || word = "infinity" then some (signedBy Binary64.infinity)
  else number? negative rest

end ObjectGraph.Decimal
