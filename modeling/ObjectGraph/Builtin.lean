import ObjectGraph.Error
import ObjectGraph.Text.Joined
import ObjectGraph.Value.Display
import ObjectGraph.Value.Equality

/-!
# Methods of plain data

Strings, arrays and maps have a few methods of their own, and every plain value has
`toString`.
-/
namespace ObjectGraph.Builtin

/-- A method without arguments. -/
def nullary (name : String) (args : List Value) (result : Value) : Except EvalError Value :=
  match args with
  | [] => .ok result
  | _ => .error (.arity name 0 args.length)

/-- A method with one argument. -/
def unary (name : String) (args : List Value) (result : Value → Except EvalError Value) :
    Except EvalError Value :=
  match args with
  | [arg] => result arg
  | _ => .error (.arity name 1 args.length)

def expecting {α : Type} (message : String) : Option α → Except EvalError α
  | some x => .ok x
  | none => .error (.typeError message)

/-- The item at an index counted from zero. -/
def itemAt (items : List Value) (index : Int64) : Except EvalError Value :=
  match (if index.toInt < 0 then none else items[index.toInt.toNat]?) with
  | some item => .ok item
  | none => .error (.indexOutOfBounds index items.length)

/-- The value of a key, null when the map does not have it. -/
def entryAt (entries : Dict Value) (key : String) : Value := (entries.find? key).getD .null

def call (target : Value) (name : String) (args : List Value) : Except EvalError Value :=
  match target, name with
  | .string s, "length" => nullary name args (.ofNat s.length)
  | .array items, "length" => nullary name args (.ofNat items.length)
  | .array items, "size" => nullary name args (.ofNat items.length)
  | .map entries, "size" => nullary name args (.ofNat entries.size)
  | .string s, "isEmpty" => nullary name args (.boolean s.isEmpty)
  | .array items, "isEmpty" => nullary name args (.boolean items.isEmpty)
  | .map entries, "isEmpty" => nullary name args (.boolean entries.isEmpty)
  | .string s, "contains" => unary name args fun arg => do
    let needle ← expecting "contains() on a string expects a string" arg.asString?
    return .boolean (Text.contains s needle)
  | .array items, "contains" => unary name args fun arg =>
    .ok (.boolean (items.any fun item => item.equals arg))
  | .map entries, "containsKey" => unary name args fun arg => do
    let key ← expecting "containsKey() expects a string" arg.asString?
    return .boolean (entries.contains key)
  | .map entries, "get" => unary name args fun arg => do
    let key ← expecting "get() on a map expects a string" arg.asString?
    return entryAt entries key
  | .array items, "get" => unary name args fun arg => do
    let index ← expecting "get() on an array expects an integer" arg.asInteger?
    itemAt items index
  | .string s, "toString" => nullary name args (.string s)
  | value, "toString" => nullary name args (.string value.display)
  | value, _ => .error (.noSuchMember value.typeName name)

end ObjectGraph.Builtin
