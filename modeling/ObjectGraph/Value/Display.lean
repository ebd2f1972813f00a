import ObjectGraph.Decimal.Layout
import ObjectGraph.Text.Joined
import ObjectGraph.Text.Quoted
import ObjectGraph.Value

/-!
# Text of values

`display` is the text in messages and the text form of a map key. `inspect` shows a
value as a term, constructor by constructor.
-/
namespace ObjectGraph.Value

def bracketed (left right : String) (parts : List String) : String :=
  left ++ Text.joined ", " parts ++ right

def booleanText (b : Bool) : String := if b then "true" else "false"

mutual
def display : Value → String
  | null => "null"
  | boolean b => booleanText b
  | integer n => toString n.toInt
  | float x => Decimal.plain.text x
  | string s => Text.quote s
  | array items => bracketed "[" "]" (displayItems items)
  | map entries => bracketed "\x7b" "\x7d" (displayEntries entries)
  | object o => o.display
termination_by structural v => v

def displayItems : List Value → List String
  | [] => []
  | item :: items => item.display :: displayItems items
termination_by structural items => items

def displayEntries {bound : Option String} : Entries Value bound → List String
  | .nil => []
  | .cons key value _ rest => (Text.quote key ++ ": " ++ value.display) :: displayEntries rest
termination_by structural entries => entries
end

mutual
def inspect : Value → String
  | null => "Null"
  | boolean b => "Boolean(" ++ booleanText b ++ ")"
  | integer n => "Integer(" ++ toString n.toInt ++ ")"
  | float x => "Float(" ++ Decimal.exact.text x ++ ")"
  | string s => "String(" ++ Text.quote s ++ ")"
  | array items => "Array(" ++ bracketed "[" "]" (inspectItems items) ++ ")"
  | map entries => "Map(" ++ bracketed "\x7b" "\x7d" (inspectEntries entries) ++ ")"
  | object o => "Object(" ++ o.display ++ ")"
termination_by structural v => v

def inspectItems : List Value → List String
  | [] => []
  | item :: items => item.inspect :: inspectItems items
termination_by structural items => items

def inspectEntries {bound : Option String} : Entries Value bound → List String
  | .nil => []
  | .cons key value _ rest => (Text.quote key ++ ": " ++ value.inspect) :: inspectEntries rest
termination_by structural entries => entries
end

end ObjectGraph.Value
