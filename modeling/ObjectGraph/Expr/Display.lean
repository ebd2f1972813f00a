import ObjectGraph.Expr
import ObjectGraph.Value.Display

/-!
# Text of expressions

The text names an expression in messages. An operator other than negation stands in
parentheses under another operator and in a chain. Names are written as they are.
-/
namespace ObjectGraph

def Literal.display : Literal → String
  | null => "null"
  | boolean b => Value.booleanText b
  | integer n => toString n.toInt
  | float x => Decimal.exact.text x
  | string s => Text.quote s

namespace Expr

/-- Operators that need parentheses. -/
def isInfixed : Expr → Bool
  | logical _ _ => true
  | compare _ _ _ => true
  | _ => false

/-- Links written in brackets, which take no dot. -/
def isBracketed : Expr → Bool
  | index _ => true
  | subscript _ => true
  | _ => false

def enclosed (e : Expr) (text : String) : String :=
  if e.isInfixed then "(" ++ text ++ ")" else text

mutual
def display : Expr → String
  | const literal => literal.display
  | root => "#root"
  | source => "#this"
  | var name => "#" ++ name
  | property name => name
  | index key => "[" ++ key.display ++ "]"
  | subscript s => s.display
  | method name args => name ++ "(" ++ Text.joined ", " (displayAll args) ++ ")"
  | chain [] => ""
  | chain (link :: links) => link.enclosed link.display ++ displayLinks links
  | not operand => "!" ++ operand.enclosed operand.display
  | logical op operands => Text.joined (" " ++ op.symbol ++ " ") (displayOperands operands)
  | compare op left right =>
    left.enclosed left.display ++ " " ++ op.symbol ++ " " ++ right.enclosed right.display
termination_by structural e => e

def displayAll : List Expr → List String
  | [] => []
  | e :: es => e.display :: displayAll es
termination_by structural es => es

def displayOperands : List Expr → List String
  | [] => []
  | e :: es => e.enclosed e.display :: displayOperands es
termination_by structural es => es

/-- The links after the first. -/
def displayLinks : List Expr → String
  | [] => ""
  | e :: es => (if e.isBracketed then "" else ".") ++ e.enclosed e.display ++ displayLinks es
termination_by structural es => es
end

end Expr
end ObjectGraph
