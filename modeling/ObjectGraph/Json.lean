import ObjectGraph.Dict
import ObjectGraph.Json.Reader

/-!
# JSON values

A value forgets how its text was written: numbers are read, strings decoded, and of
a repeated key the last member stays. Arrays and objects may nest to a fixed depth.
-/
namespace ObjectGraph

inductive Json
  | null
  | boolean (b : Bool)
  | number (n : Json.Number)
  | string (s : String)
  | array (items : List Json)
  | object (members : Entries Json none)

namespace Json

/-- How many arrays and objects may stand around a value. -/
def maxDepth : Nat := 127

mutual
/-- The value of a tree with room for that many containers around a scalar. -/
def ofTree? (room : Nat) : Tree → Option Json
  | .null => some null
  | .boolean b => some (boolean b)
  | .numeral chars => (Numeral.ofChars? chars).bind fun n => n.number?.map number
  | .string body => (decode? body).map string
  | .array items => if room = 0 then none else (ofItems? (room - 1) items).map array
  | .object members =>
    if room = 0 then none else (ofMembers? (room - 1) members Dict.empty).map object
termination_by structural tree => tree

def ofItems? (room : Nat) : List Tree → Option (List Json)
  | [] => some []
  | item :: items =>
    match ofTree? room item, ofItems? room items with
    | some item, some items => some (item :: items)
    | _, _ => none
termination_by structural items => items

def ofMembers? (room : Nat) : Members Tree → Dict Json → Option (Dict Json)
  | .nil, dict => some dict
  | .cons key value rest, dict =>
    match decode? key, ofTree? room value with
    | some key, some value => ofMembers? room rest (dict.insert key value)
    | _, _ => none
termination_by structural members => members
end

mutual
/-- The canonical tree: members in key order. -/
def toTree : Json → Tree
  | null => .null
  | boolean b => .boolean b
  | number n => .numeral n.text.toList
  | string s => .ofText s
  | array items => .array (itemTrees items)
  | object members => .object (memberTrees members)
termination_by structural json => json

def itemTrees : List Json → List Tree
  | [] => []
  | item :: items => item.toTree :: itemTrees items
termination_by structural items => items

def memberTrees {bound : Option String} : Entries Json bound → Members Tree
  | .nil => .nil
  | .cons key value _ rest => .cons (encode key.toList) value.toTree (memberTrees rest)
termination_by structural members => members
end

def read? (text : String) : Option Json := (Tree.read? text).bind (ofTree? maxDepth)

def compact (json : Json) : String := json.toTree.compact

def pretty (json : Json) : String := json.toTree.pretty

end Json
end ObjectGraph
