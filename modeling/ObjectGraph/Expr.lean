import ObjectGraph.Value

/-!
# Expressions

An expression is evaluated against a source. Navigation reads from the source, each
link of a chain from the result of the link before it. Index keys and arguments are
evaluated against the root.
-/
namespace ObjectGraph

inductive Literal
  | null
  | boolean (b : Bool)
  | integer (n : Int64)
  | float (x : Binary64)
  | string (s : String)
  deriving DecidableEq

namespace Literal

def toValue : Literal → Value
  | null => .null
  | boolean b => .boolean b
  | integer n => .integer n
  | float x => .float x
  | string s => .string s

/-- The same kind and the same content; doubles by their numeric comparison. -/
def same : Literal → Literal → Bool
  | null, null => true
  | boolean a, boolean b => a = b
  | integer a, integer b => a = b
  | float a, float b => a.eq b
  | string a, string b => a = b
  | _, _ => false

end Literal

/-- A position in an array, or the whole array. -/
inductive Subscript
  | first
  | middle
  | last
  | all
  deriving DecidableEq

namespace Subscript

def symbol : Subscript → String
  | first => "^"
  | middle => "|"
  | last => "$"
  | all => "*"

def display (s : Subscript) : String := "[" ++ s.symbol ++ "]"

/-- The index selected in an array of that length; none for the whole array or in an
empty one. -/
def position? (s : Subscript) (length : Nat) : Option Nat :=
  if length = 0 then none
  else
    match s with
    | first => some 0
    | middle => some (length / 2)
    | last => some (length - 1)
    | all => none

end Subscript

inductive Connective
  | and
  | or
  deriving DecidableEq

namespace Connective

def symbol : Connective → String
  | and => "&&"
  | or => "||"

/-- Whether an operand of that truth decides the outcome. -/
def stopsAt : Connective → Bool → Bool
  | and, truth => !truth
  | or, truth => truth

/-- The outcome without operands. -/
def identity : Connective → Bool
  | and => true
  | or => false

end Connective

inductive Comparison
  | equal
  | notEqual
  deriving DecidableEq

namespace Comparison

def symbol : Comparison → String
  | equal => "=="
  | notEqual => "!="

def apply : Comparison → Bool → Bool
  | equal, same => same
  | notEqual, same => !same

end Comparison

inductive Expr
  | const (literal : Literal)
  | root
  /-- The source itself. -/
  | source
  | var (name : String)
  | property (name : String)
  | index (key : Expr)
  | subscript (s : Subscript)
  | method (name : String) (args : List Expr)
  | chain (links : List Expr)
  | not (operand : Expr)
  | logical (op : Connective) (operands : List Expr)
  | compare (op : Comparison) (left right : Expr)

namespace Expr

def operator? : Expr → Option String
  | not _ => some "!"
  | logical op _ => some op.symbol
  | compare op _ _ => some op.symbol
  | _ => none

/-- Subexpressions in evaluation order. -/
def children : Expr → List Expr
  | index key => [key]
  | not operand => [operand]
  | method _ args => args
  | chain links => links
  | logical _ operands => operands
  | compare _ left right => [left, right]
  | _ => []

mutual
/-- What holds of an expression as soon as it holds of its parts holds of every expression. -/
theorem of_children {P : Expr → Prop} (h : ∀ e, (∀ part ∈ e.children, P part) → P e) :
    ∀ e : Expr, P e
  | const _ => h _ nofun
  | root => h _ nofun
  | source => h _ nofun
  | var _ => h _ nofun
  | property _ => h _ nofun
  | index key => h _ (List.forall_mem_singleton.2 (of_children h key))
  | subscript _ => h _ nofun
  | method _ args => h _ (forall_of_children h args)
  | chain links => h _ (forall_of_children h links)
  | not operand => h _ (List.forall_mem_singleton.2 (of_children h operand))
  | logical _ operands => h _ (forall_of_children h operands)
  | compare _ left right =>
    h _ (List.forall_mem_cons.2
      ⟨of_children h left, List.forall_mem_singleton.2 (of_children h right)⟩)
termination_by structural e => e

theorem forall_of_children {P : Expr → Prop}
    (h : ∀ e, (∀ part ∈ e.children, P part) → P e) : ∀ es : List Expr, ∀ e ∈ es, P e
  | [] => nofun
  | e :: es => List.forall_mem_cons.2 ⟨of_children h e, forall_of_children h es⟩
termination_by structural es => es
end

mutual
/-- Where an expression ends: what the last links of nested chains lead to. -/
def tip : Expr → Expr
  | chain links => tipOfLinks links
  | e => e
termination_by structural e => e

def tipOfLinks : List Expr → Expr
  | [] => chain []
  | [last] => last.tip
  | _ :: next :: links => tipOfLinks (next :: links)
termination_by structural links => links
end

mutual
/-- The same tree; doubles by their numeric comparison. -/
def same : Expr → Expr → Bool
  | const a, const b => a.same b
  | root, root => true
  | source, source => true
  | var a, var b => a = b
  | property a, property b => a = b
  | index a, index b => a.same b
  | subscript a, subscript b => a = b
  | method a as, method b bs => a = b && sameAll as bs
  | chain as, chain bs => sameAll as bs
  | not a, not b => a.same b
  | logical p as, logical q bs => p = q && sameAll as bs
  | compare p a c, compare q b d => p = q && a.same b && c.same d
  | _, _ => false
termination_by structural a => a

def sameAll : List Expr → List Expr → Bool
  | [], [] => true
  | a :: as, b :: bs => a.same b && sameAll as bs
  | _, _ => false
termination_by structural as => as
end

end Expr
end ObjectGraph
