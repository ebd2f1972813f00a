import ObjectGraph.Json
import ObjectGraph.Value.Display

/-!
# Values and JSON

JSON objects become maps. A whole number above the integer range becomes a double.
In the other direction a double that JSON cannot write becomes null and a host object
becomes the text of its handle.
-/
namespace ObjectGraph.Value

def ofNumber : Json.Number → Value
  | .integer n => integer n
  | .large n _ => float (Binary64.ofNat n.toNat)
  | .float x _ => float x

mutual
def ofJson : Json → Value
  | .null => null
  | .boolean b => boolean b
  | .number n => ofNumber n
  | .string s => string s
  | .array items => array (ofJsonItems items)
  | .object members => map (ofJsonMembers members)
termination_by structural json => json

def ofJsonItems : List Json → List Value
  | [] => []
  | item :: items => ofJson item :: ofJsonItems items
termination_by structural items => items

def ofJsonMembers {bound : Option String} : Entries Json bound → Entries Value bound
  | .nil => .nil
  | .cons key value above rest => .cons key (ofJson value) above (ofJsonMembers rest)
termination_by structural members => members
end

def floatJson (x : Binary64) : Json :=
  if h : x.isFinite = true then .number (.float x h) else .null

mutual
def toJson : Value → Json
  | null => .null
  | boolean b => .boolean b
  | integer n => .number (.integer n)
  | float x => floatJson x
  | string s => .string s
  | array items => .array (toJsonItems items)
  | map entries => .object (toJsonEntries entries)
  | object o => .string o.display
termination_by structural v => v

def toJsonItems : List Value → List Json
  | [] => []
  | item :: items => item.toJson :: toJsonItems items
termination_by structural items => items

def toJsonEntries {bound : Option String} : Entries Value bound → Entries Json bound
  | .nil => .nil
  | .cons key value above rest => .cons key value.toJson above (toJsonEntries rest)
termination_by structural entries => entries
end

end ObjectGraph.Value
