import Mathlib.Logic.Function.Basic
import ObjectGraph.Navigation
import ObjectGraph.Proofs.DoubleText
import ObjectGraph.Proofs.SourceText

/-!
# What source text means

An expression that was read from a text is given a type, and a program of that type. The paths in
it stand for the bindings, the constructors of values and the functions of `Navigation`; every
function is called with arguments of its own types only. What does not fit together has no meaning.
-/
namespace ObjectGraph

variable {σ : Type}

/-- The values of the variables that blocks introduce. -/
abbrev Locals := String → Value

/-- A part of a program with its type. -/
inductive Typed (σ : Type)
  | context
  | value (run : Locals → Run σ EvalError Value)
  | truth (run : Locals → Run σ EvalError Bool)
  /-- What a function came to that may fail; nothing but a question mark takes it. -/
  | result (run : Locals → Run σ EvalError Value)
  | values (run : Locals → Run σ EvalError (List Value))
  | borrowed (t : Typed σ)
  | integer (n : Int64)
  | double (x : Binary64)
  | text (s : String)
  | string (s : String)
  | subscript (s : Subscript)

namespace Typed

def value? : Typed σ → Option (Locals → Run σ EvalError Value)
  | value run => some run
  | _ => none

def truth? : Typed σ → Option (Locals → Run σ EvalError Bool)
  | truth run => some run
  | _ => none

def result? : Typed σ → Option (Locals → Run σ EvalError Value)
  | result run => some run
  | _ => none

/-- A value behind any number of borrows, at least one. -/
def reference? : Typed σ → Option (Locals → Run σ EvalError Value)
  | borrowed (value run) => some run
  | borrowed t => t.reference?
  | _ => none

/-- The truth of what is borrowed, a value or a native truth value. -/
def truthiness? : Typed σ → Option (Locals → Run σ EvalError Bool)
  | borrowed (value run) => some fun locals => do
    let v ← run locals
    return v.truthy
  | borrowed (truth run) => some run
  | _ => none

/-- What a copy of it is. -/
def copied? : Typed σ → Option (Typed σ)
  | value run => some (value run)
  | borrowed (value run) => some (value run)
  | _ => none

/-- Values, computed from left to right. -/
def values? : List (Typed σ) → Option (Locals → Run σ EvalError (List Value))
  | [] => some fun _ => pure []
  | value run :: rest => do
    let others ← values? rest
    return fun locals => run locals >>= fun v => others locals >>= fun vs => pure (v :: vs)
  | _ => none

/-- A number without fraction and exponent is an integer and has to be in range, and every other
one is a double. -/
def ofNumeral? (n : Json.Numeral) : Option (Typed σ) :=
  match n.fraction, n.exponent with
  | none, none =>
    let magnitude : Int := n.allDigits
    let number := if n.negative then -magnitude else magnitude
    if -0x8000000000000000 ≤ number ∧ number < 0x8000000000000000 then
      some (integer (Int64.ofInt number))
    else none
  | _, _ => some (double n.nearest)

theorem ofNumeral?_integer (n : Int64) :
    (Json.Numeral.ofChars? (toString n.toInt).toList).bind ofNumeral? =
      some (integer n : Typed σ) := by
  have hlow := n.le_toInt
  have hhigh := n.toInt_lt
  have hdigits : (Json.Numeral.mk (decide (n.toInt < 0))
      ((Nat.toDigits 10 n.toInt.natAbs).map Json.Numeral.digitValue) none none).allDigits =
        n.toInt.natAbs := by
    rw [Json.Numeral.allDigits, Option.getD_none, List.append_nil]
    exact Json.Numeral.charsValue_toDigits _
  have hnumber : (if decide (n.toInt < 0) = true then -(n.toInt.natAbs : Int)
      else n.toInt.natAbs) = n.toInt := by
    split_ifs with hsign
    · have hnegative := of_decide_eq_true hsign
      omega
    · have hpositive : ¬ n.toInt < 0 := fun h => hsign (decide_eq_true h)
      omega
  rw [Json.Numeral.ofChars?_integer, Option.bind_some, ofNumeral?]
  dsimp only
  rw [hdigits, hnumber, if_pos ⟨hlow, hhigh⟩, Int64.ofInt_toInt]

theorem ofNumeral?_double {x : Binary64} (h : x.isFinite = true) :
    (Json.Numeral.ofChars? (Decimal.exact.text x).toList).bind ofNumeral? =
      some (double x : Typed σ) := by
  obtain ⟨n, hread, hnearest⟩ := Decimal.nearest_text Decimal.exact h
  have hpoint : Decimal.exact.pointZero = true := rfl
  have hplaces := Decimal.fraction_or_exponent hpoint h hread
  rw [hread, Option.bind_some, ofNumeral?]
  split
  · next hfraction hexponent => exact absurd hexponent (hplaces hfraction)
  · rw [hnearest]

end Typed

/-- What may be called. -/
inductive Callee
  | booleanValue
  | integerValue
  | floatValue
  | stringValue
  | stringFrom
  | readVariable
  | getProperty
  | getIndex
  | getSubscript
  | callMethod
  | truthiness
  | equals

namespace Callee

def paths : List (String × Callee) :=
  [("::ogel_lang::Value::Boolean", booleanValue),
    ("::ogel_lang::Value::Integer", integerValue),
    ("::ogel_lang::Value::Float", floatValue),
    ("::ogel_lang::Value::String", stringValue),
    ("::std::string::String::from", stringFrom),
    ("::ogel_lang::runtime::variable", readVariable),
    ("::ogel_lang::runtime::get_property", getProperty),
    ("::ogel_lang::runtime::get_index", getIndex),
    ("::ogel_lang::runtime::get_subscript", getSubscript),
    ("::ogel_lang::runtime::call_method", callMethod),
    ("::ogel_lang::ops::boolean_value", truthiness),
    ("::ogel_lang::ops::equals", equals)]

variable (classes : Registry σ) (ctx : Context σ)

/-- A call; its arguments are computed from left to right. -/
def apply : Callee → List (Typed σ) → Option (Typed σ)
  | booleanValue, [.truth test] =>
    some (.value fun locals => test locals >>= fun b => pure (.boolean b))
  | integerValue, [.integer n] => some (.value fun _ => pure (.integer n))
  | floatValue, [.double x] => some (.value fun _ => pure (.float x))
  | stringValue, [.string s] => some (.value fun _ => pure (.string s))
  | stringFrom, [.text s] => some (.string s)
  | readVariable, [.context, .text name] => some (.value fun _ => pure (ctx.valueOf name))
  | getProperty, [.context, source, .text name] => do
    let source ← source.reference?
    return .result fun locals =>
      source locals >>= fun here => Navigation.getProperty classes ctx here name
  | getIndex, [.context, source, key] => do
    let source ← source.reference?
    let key ← key.reference?
    return .result fun locals => source locals >>= fun here =>
      key locals >>= fun key => Navigation.getIndex classes ctx here key
  | getSubscript, [.context, source, .subscript s] => do
    let source ← source.reference?
    return .result fun locals => source locals >>= fun here => Navigation.getSubscript ctx here s
  | callMethod, [.context, source, .text name, .borrowed (.values args)] => do
    let source ← source.reference?
    return .result fun locals => source locals >>= fun here =>
      args locals >>= fun args => Navigation.callMethod classes ctx here name args
  | truthiness, [operand] => do
    let test ← operand.truthiness?
    return .truth test
  | equals, [left, right] => do
    let left ← left.reference?
    let right ← right.reference?
    return .truth fun locals => left locals >>= fun l => right locals >>= fun r => pure (l.equals r)
  | _, _ => none

end Callee

namespace Source

variable (classes : Registry σ) (ctx : Context σ) (target : Value)

/-- The paths of what is not called. The root and the target are borrowed values. -/
def constants : List (String × Typed σ) :=
  [("true", .truth fun _ => pure true),
    ("false", .truth fun _ => pure false),
    ("ctx", .context),
    ("root", .borrowed (.value fun _ => pure ctx.root)),
    ("target", .borrowed (.value fun _ => pure target)),
    ("::ogel_lang::Value::Null", .value fun _ => pure .null),
    ("::ogel_lang::ast::DynamicSubscript::First", .subscript .first),
    ("::ogel_lang::ast::DynamicSubscript::Mid", .subscript .middle),
    ("::ogel_lang::ast::DynamicSubscript::Last", .subscript .last),
    ("::ogel_lang::ast::DynamicSubscript::All", .subscript .all),
    ("f64::NAN", .double Binary64.nan),
    ("f64::INFINITY", .double Binary64.infinity),
    ("f64::NEG_INFINITY", .double Binary64.infinity.neg)]

mutual
/-- The meaning of an expression where the variables in scope are known. A variable hides what else
goes by its name. -/
def typed? (scope : List String) : Source → Option (Typed σ)
  | path name =>
    if name ∈ scope then some (.value fun locals => pure (locals name))
    else (constants ctx target).lookup name
  | numeral chars => (Json.Numeral.ofChars? chars).bind Typed.ofNumeral?
  | text s => some (.text s)
  | list items => do
    let items ← typedAll? scope items
    let run ← Typed.values? items
    return .values run
  | call function args => do
    let callee ← Callee.paths.lookup function
    let args ← typedAll? scope args
    callee.apply classes ctx args
  | method receiver name args => do
    let receiver ← typed? scope receiver
    if name = "clone" ∧ args.isEmpty then receiver.copied? else none
  | attempt e => do
    let run ← typed? scope e >>= Typed.result?
    return .value run
  | not e => do
    let test ← typed? scope e >>= Typed.truth?
    return .truth fun locals => test locals >>= fun b => pure !b
  | borrow e => do
    let t ← typed? scope e
    return .borrowed t
  | letIn name bound body => do
    let bound ← typed? scope bound >>= Typed.value?
    let body ← typed? (name :: scope) body >>= Typed.value?
    return .value fun locals => bound locals >>= fun v => body (Function.update locals name v)
  | ite test yes no => do
    let test ← typed? scope test >>= Typed.truth?
    let yes ← typed? scope yes >>= Typed.value?
    let no ← typed? scope no >>= Typed.value?
    return .value fun locals => test locals >>= fun b => if b then yes locals else no locals
termination_by structural e => e

def typedAll? (scope : List String) : List Source → Option (List (Typed σ))
  | [] => some []
  | e :: es => do
    let first ← typed? scope e
    let rest ← typedAll? scope es
    return first :: rest
termination_by structural es => es
end

end Source
end ObjectGraph
