import ObjectGraph.Expr
import ObjectGraph.Text.Blank
import ObjectGraph.Value.Display

/-!
# Source fragments

A fragment is a piece of source text over the bindings `ctx`, `root` and `target`.
Some fragments are native truth values, all others are values; where a value is
needed, `asValue` boxes a fragment whose hint is boolean. A fragment without any text
stands for null.
-/
namespace ObjectGraph

inductive Fragment
  | blank
  | nullValue
  | truth (b : Bool)
  | integer (n : Int64)
  | float (x : Binary64)
  | string (s : String)
  | rootPlace
  | targetPlace
  /-- A fragment in parentheses, as a place to navigate from. -/
  | group (f : Fragment)
  | clone (place : Fragment)
  | var (name : String)
  | property (place : Fragment) (name : String)
  | index (place key : Fragment)
  | subscript (place : Fragment) (s : Subscript)
  | call (place : Fragment) (name : String) (args : List Fragment)
  | not (operand : Fragment)
  /-- Runs the first operand and, unless it decides, the rest. -/
  | guard (op : Connective) (first rest : Fragment)
  | equal (left right : Fragment)
  | differ (left right : Fragment)
  | boxed (f : Fragment)

namespace Fragment

def ops : String := "::ogel_lang::ops"

def runtime : String := "::ogel_lang::runtime"

def valueType : String := "::ogel_lang::Value"

/-- The text that stands for null. -/
def nullText : String := valueType ++ "::Null"

def floatText (x : Binary64) : String :=
  if x.isNaN then "f64::NAN"
  else if x.isInfinite then (if x.negative then "f64::NEG_INFINITY" else "f64::INFINITY")
  else Decimal.exact.text x

def subscriptPath (s : Subscript) : String :=
  "::ogel_lang::ast::DynamicSubscript::" ++
    match s with
    | .first => "First"
    | .middle => "Mid"
    | .last => "Last"
    | .all => "All"

def boxedText (truth : String) : String := valueType ++ "::Boolean(" ++ truth ++ ")"

/-- The test on `v` that ends a guard. -/
def stopText : Connective → String
  | .and => "!" ++ ops ++ "::boolean_value(&v)"
  | .or => ops ++ "::boolean_value(&v)"

mutual
def render : Fragment → String
  | blank => ""
  | nullValue => nullText
  | truth b => Value.booleanText b
  | integer n => valueType ++ "::Integer(" ++ toString n.toInt ++ ")"
  | float x => valueType ++ "::Float(" ++ floatText x ++ ")"
  | string s => valueType ++ "::String(::std::string::String::from(" ++ Text.quote s ++ "))"
  | rootPlace => "root"
  | targetPlace => "target"
  | group f => "(" ++ f.render ++ ")"
  | clone place => place.render ++ ".clone()"
  | var name => runtime ++ "::variable(ctx, " ++ Text.quote name ++ ")"
  | property place name =>
    runtime ++ "::get_property(ctx, &" ++ place.render ++ ", " ++ Text.quote name ++ ")?"
  | index place key =>
    runtime ++ "::get_index(ctx, &" ++ place.render ++ ", &" ++ key.render ++ ")?"
  | subscript place s =>
    runtime ++ "::get_subscript(ctx, &" ++ place.render ++ ", " ++ subscriptPath s ++ ")?"
  | call place name args =>
    runtime ++ "::call_method(ctx, &" ++ place.render ++ ", " ++ Text.quote name ++ ", &[" ++
      Text.joined ", " (renderAll args) ++ "])?"
  | not operand => "(!" ++ ops ++ "::boolean_value(&(" ++ operand.render ++ ")))"
  | guard op first rest =>
    "\x7b let v = " ++ first.render ++ "; if " ++ stopText op ++ " \x7b v \x7d else \x7b " ++
      rest.render ++ " \x7d \x7d"
  | equal left right => ops ++ "::equals(&" ++ left.render ++ ", &" ++ right.render ++ ")"
  | differ left right => "(!" ++ ops ++ "::equals(&" ++ left.render ++ ", &" ++ right.render ++ "))"
  | boxed f => boxedText f.render
termination_by structural f => f

def renderAll : List Fragment → List String
  | [] => []
  | f :: fs => f.render :: renderAll fs
termination_by structural fs => fs
end

def ofLiteral : Literal → Fragment
  | .null => nullValue
  | .boolean b => truth b
  | .integer n => integer n
  | .float x => float x
  | .string s => string s

/-- The null value in place of a blank fragment. -/
def orNull : Fragment → Fragment
  | blank => nullValue
  | f => f

/-- A fragment with that hint as a value. -/
def asValue (hint : Option TypeHint) : Fragment → Fragment
  | blank => nullValue
  | f => if hint = some .boolean then boxed f else f

/-- The operands of a connective, from the right. -/
def guards (op : Connective) : List Fragment → Fragment
  | [] => boxed (truth op.identity)
  | [last] => last
  | first :: next :: rest => guard op first (guards op (next :: rest))

end Fragment

namespace Routine

/-- The text of a fragment with that hint as a value. -/
def body (fragment : String) (hint : Option TypeHint) : String :=
  if Text.isBlank fragment then Fragment.nullText
  else if hint = some .boolean then Fragment.boxedText fragment
  else fragment

/-- A complete routine around the text of a fragment. -/
def text (name fragment : String) (hint : Option TypeHint) : String :=
  "#[allow(unused_variables)]\nfn " ++ name ++ "(ctx: &::ogel_lang::EvalContext, root: &" ++
    Fragment.valueType ++ ", target: &" ++ Fragment.valueType ++ ") -> ::std::result::Result<" ++
    Fragment.valueType ++ ", ::ogel_lang::EvalError> \x7b\n    Ok(" ++ body fragment hint ++
    ")\n\x7d\n"

end Routine
end ObjectGraph
