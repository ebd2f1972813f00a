import ObjectGraph.Expr
import ObjectGraph.Json

/-!
# Expressions as JSON

An expression is an object with one member, named for its form; a form without
content may also be a bare string. The forms with several fields are objects with
their fields in any order, unknown ones skipped, or arrays of exactly their fields.
-/
namespace ObjectGraph

open Json (Tree Members)

namespace Literal

/-- A literal is a JSON scalar; a double that JSON cannot write becomes null. -/
def toTree : Literal → Tree
  | null => .null
  | boolean b => .boolean b
  | integer n => .numeral (toString n.toInt).toList
  | float x => if x.isFinite then .numeral (Decimal.json.text x).toList else .null
  | string s => .ofText s

def ofNumber : Json.Number → Literal
  | .integer n => integer n
  | .large n _ => float (Binary64.ofNat n.toNat)
  | .float x _ => float x

def ofTree? : Tree → Option Literal
  | .null => some null
  | .boolean b => some (boolean b)
  | .numeral chars => (Json.Numeral.ofChars? chars).bind fun n => n.number?.map ofNumber
  | .string body => (Json.decode? body).map string
  | .array _ => none
  | .object _ => none

end Literal

/-- The name of a form without content: a string, or an object whose one member of
that name is null. -/
def tag? (room : Nat) : Tree → Option String
  | .string body => Json.decode? body
  | .object (.cons key .null .nil) => if room = 0 then none else Json.decode? key
  | _ => none

def Subscript.word : Subscript → String
  | first => "first"
  | middle => "mid"
  | last => "last"
  | all => "all"

def Subscript.ofWord? : String → Option Subscript
  | "first" => some first
  | "mid" => some middle
  | "last" => some last
  | "all" => some all
  | _ => none

def Connective.word : Connective → String
  | and => "and"
  | or => "or"

def Connective.ofWord? : String → Option Connective
  | "and" => some and
  | "or" => some or
  | _ => none

def Comparison.word : Comparison → String
  | equal => "equal"
  | notEqual => "not_equal"

def Comparison.ofWord? : String → Option Comparison
  | "equal" => some equal
  | "not_equal" => some notEqual
  | _ => none

namespace Expr

mutual
def toTree : Expr → Tree
  | const literal => .record [("const", literal.toTree)]
  | root => .ofText "root"
  | source => .ofText "this"
  | var name => .record [("variable", .ofText name)]
  | property name => .record [("property", .ofText name)]
  | index key => .record [("index", key.toTree)]
  | subscript s => .record [("subscript", .ofText s.word)]
  | method name args =>
    .record [("method", .record [("name", .ofText name), ("args", .array (toTrees args))])]
  | chain links => .record [("chain", .array (toTrees links))]
  | not operand => .record [("not", operand.toTree)]
  | logical op operands =>
    .record [("logical",
      .record [("op", .ofText op.word), ("operands", .array (toTrees operands))])]
  | compare op left right =>
    .record [("compare",
      .record [("op", .ofText op.word), ("left", left.toTree), ("right", right.toTree)])]
termination_by structural e => e

def toTrees : List Expr → List Tree
  | [] => []
  | e :: es => e.toTree :: toTrees es
termination_by structural es => es
end

def plain? : String → Option Expr
  | "root" => some root
  | "this" => some source
  | _ => none

def text? : Tree → Option String
  | .string body => Json.decode? body
  | _ => none

mutual
/-- The expression of a tree with room for that many containers. -/
def ofTree? (room : Nat) : Tree → Option Expr
  | .string body => (Json.decode? body).bind plain?
  | .object (.cons key value .nil) =>
    if room = 0 then none
    else
      let room := room - 1
      match Json.decode? key with
      | some "root" => match value with
        | .null => some root
        | _ => none
      | some "this" => match value with
        | .null => some source
        | _ => none
      | some "const" => (Literal.ofTree? value).map const
      | some "variable" => (text? value).map var
      | some "property" => (text? value).map property
      | some "index" => (ofTree? room value).map index
      | some "subscript" => ((tag? room value).bind Subscript.ofWord?).map subscript
      | some "chain" => (ofList? room value).map chain
      | some "not" => (ofTree? room value).map not
      | some "method" => match value with
        | .array [name, args] =>
          if room = 0 then none
          else
            match text? name, ofList? (room - 1) args with
            | some name, some args => some (method name args)
            | _, _ => none
        | .object members => if room = 0 then none else methodOf? (room - 1) members none none
        | _ => none
      | some "logical" => match value with
        | .array [op, operands] =>
          if room = 0 then none
          else
            match (tag? (room - 1) op).bind Connective.ofWord?, ofList? (room - 1) operands with
            | some op, some operands => some (logical op operands)
            | _, _ => none
        | .object members => if room = 0 then none else logicalOf? (room - 1) members none none
        | _ => none
      | some "compare" => match value with
        | .array [op, left, right] =>
          if room = 0 then none
          else
            match (tag? (room - 1) op).bind Comparison.ofWord?, ofTree? (room - 1) left,
              ofTree? (room - 1) right with
            | some op, some left, some right => some (compare op left right)
            | _, _, _ => none
        | .object members =>
          if room = 0 then none else compareOf? (room - 1) members none none none
        | _ => none
      | _ => none
  | _ => none
termination_by structural tree => tree

/-- A list of expressions is an array. -/
def ofList? (room : Nat) : Tree → Option (List Expr)
  | .array items => if room = 0 then none else ofItems? (room - 1) items
  | _ => none
termination_by structural tree => tree

def ofItems? (room : Nat) : List Tree → Option (List Expr)
  | [] => some []
  | item :: items =>
    match ofTree? room item, ofItems? room items with
    | some e, some es => some (e :: es)
    | _, _ => none
termination_by structural items => items

/-- Reads the fields of a method; a known field may stand only once. -/
def methodOf? (room : Nat) :
    Members Tree → Option String → Option (List Expr) → Option Expr
  | .nil, some name, some args => some (method name args)
  | .nil, _, _ => none
  | .cons key value rest, name, args =>
    match Json.decode? key with
    | none => none
    | some "name" =>
      match name, text? value with
      | none, some name => methodOf? room rest (some name) args
      | _, _ => none
    | some "args" =>
      match args, ofList? room value with
      | none, some args => methodOf? room rest name (some args)
      | _, _ => none
    | some _ => methodOf? room rest name args
termination_by structural members => members

def logicalOf? (room : Nat) :
    Members Tree → Option Connective → Option (List Expr) → Option Expr
  | .nil, some op, some operands => some (logical op operands)
  | .nil, _, _ => none
  | .cons key value rest, op, operands =>
    match Json.decode? key with
    | none => none
    | some "op" =>
      match op, (tag? room value).bind Connective.ofWord? with
      | none, some op => logicalOf? room rest (some op) operands
      | _, _ => none
    | some "operands" =>
      match operands, ofList? room value with
      | none, some operands => logicalOf? room rest op (some operands)
      | _, _ => none
    | some _ => logicalOf? room rest op operands
termination_by structural members => members

def compareOf? (room : Nat) :
    Members Tree → Option Comparison → Option Expr → Option Expr → Option Expr
  | .nil, some op, some left, some right => some (compare op left right)
  | .nil, _, _, _ => none
  | .cons key value rest, op, left, right =>
    match Json.decode? key with
    | none => none
    | some "op" =>
      match op, (tag? room value).bind Comparison.ofWord? with
      | none, some op => compareOf? room rest (some op) left right
      | _, _ => none
    | some "left" =>
      match left, ofTree? room value with
      | none, some left => compareOf? room rest op (some left) right
      | _, _ => none
    | some "right" =>
      match right, ofTree? room value with
      | none, some right => compareOf? room rest op left (some right)
      | _, _ => none
    | some _ => compareOf? room rest op left right
termination_by structural members => members
end

/-- The expression of a JSON text. -/
def read? (text : String) : Option Expr := (Tree.read? text).bind (ofTree? Json.maxDepth)

def json (e : Expr) : String := e.toTree.compact

end Expr
end ObjectGraph
