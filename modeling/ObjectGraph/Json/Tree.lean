import ObjectGraph.Json.Text
import ObjectGraph.Text.Joined

/-!
# JSON as written

A tree keeps what a text says: numerals and string bodies character by character,
members in their order, repeated keys included. `compact` and `pretty` write a tree.
-/
namespace ObjectGraph.Json

/-- The members of an object in the order in which they are written. -/
inductive Members (α : Type)
  | nil
  | cons (key : List Char) (value : α) (rest : Members α)

def Members.ofList {α : Type} : List (List Char × α) → Members α
  | [] => nil
  | (key, value) :: rest => cons key value (ofList rest)

def Members.toList {α : Type} : Members α → List (List Char × α)
  | nil => []
  | cons key value rest => (key, value) :: rest.toList

@[simp] theorem Members.toList_ofList {α : Type} (pairs : List (List Char × α)) :
    (Members.ofList pairs).toList = pairs := by
  induction pairs with
  | nil => rfl
  | cons pair pairs ih => simp [ofList, toList, ih]

inductive Tree
  | null
  | boolean (b : Bool)
  | numeral (chars : List Char)
  | string (body : List Char)
  | array (items : List Tree)
  | object (members : Members Tree)

namespace Tree

def ofText (s : String) : Tree := string (encode s.toList)

/-- An object whose keys need no escape. -/
def record (fields : List (String × Tree)) : Tree :=
  object (Members.ofList (fields.map fun field => (field.1.toList, field.2)))

def quoted (body : List Char) : String := "\"" ++ String.ofList body ++ "\""

mutual
/-- The text without any white space. -/
def compact : Tree → String
  | null => "null"
  | boolean b => if b then "true" else "false"
  | numeral chars => String.ofList chars
  | string body => quoted body
  | array items => "[" ++ Text.joined "," (compactItems items) ++ "]"
  | object members => "\x7b" ++ Text.joined "," (compactMembers members) ++ "\x7d"
termination_by structural tree => tree

def compactItems : List Tree → List String
  | [] => []
  | item :: items => item.compact :: compactItems items
termination_by structural items => items

def compactMembers : Members Tree → List String
  | .nil => []
  | .cons key value rest => (quoted key ++ ":" ++ value.compact) :: compactMembers rest
termination_by structural members => members
end

def newline (depth : Nat) : String := "\n" ++ String.ofList (List.replicate (2 * depth) ' ')

/-- Parts on lines of their own between two brackets; nothing between them when there
are no parts. -/
def block (depth : Nat) (left right : String) (parts : List String) : String :=
  if parts.isEmpty then left ++ right
  else
    left ++ newline (depth + 1) ++ Text.joined ("," ++ newline (depth + 1)) parts ++
      newline depth ++ right

mutual
/-- The text with one item or member a line, indented by two spaces a level. -/
def prettyAt (depth : Nat) : Tree → String
  | null => "null"
  | boolean b => if b then "true" else "false"
  | numeral chars => String.ofList chars
  | string body => quoted body
  | array items => block depth "[" "]" (prettyItems (depth + 1) items)
  | object members => block depth "\x7b" "\x7d" (prettyMembers (depth + 1) members)
termination_by structural tree => tree

def prettyItems (depth : Nat) : List Tree → List String
  | [] => []
  | item :: items => item.prettyAt depth :: prettyItems depth items
termination_by structural items => items

def prettyMembers (depth : Nat) : Members Tree → List String
  | .nil => []
  | .cons key value rest =>
    (quoted key ++ ": " ++ value.prettyAt depth) :: prettyMembers depth rest
termination_by structural members => members
end

def pretty (tree : Tree) : String := tree.prettyAt 0

end Tree
end ObjectGraph.Json
