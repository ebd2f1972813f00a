import ObjectGraph.Decimal.Fixed
import ObjectGraph.Value

/-!
# Equality of values

Arrays are equal item by item. Two maps are equal when they have as many entries and
every key of the first leads to an equal value in the second. Host objects are equal
by identity. An integer equals a double when the double's decimal is that integer.
-/
namespace ObjectGraph.Value

def integerEqualsFloat (n : Int64) (x : Binary64) : Bool :=
  match Decimal.Fixed.ofBinary64? x with
  | some d => d.isInteger x.negative n.toInt
  | none => false

mutual
def equals : Value → Value → Bool
  | null, null => true
  | boolean a, boolean b => a = b
  | integer a, integer b => a = b
  | float a, float b => a.eq b
  | integer a, float b => integerEqualsFloat a b
  | float a, integer b => integerEqualsFloat b a
  | string a, string b => a = b
  | array as, array bs => equalItems as bs
  | map as, map bs => as.size = bs.size && equalEntries as bs
  | object a, object b => a.same b
  | _, _ => false
termination_by structural a => a

def equalItems : List Value → List Value → Bool
  | [], [] => true
  | a :: as, b :: bs => a.equals b && equalItems as bs
  | _, _ => false
termination_by structural as => as

/-- Every entry of the first has an equal one in the second. -/
def equalEntries {bound : Option String} : Entries Value bound → Dict Value → Bool
  | .nil, _ => true
  | .cons key a _ rest, other =>
    (match other.find? key with
      | some b => a.equals b
      | none => false) && equalEntries rest other
termination_by structural entries => entries
end

end ObjectGraph.Value
