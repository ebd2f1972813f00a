import ObjectGraph.Binary64.Rounding
import ObjectGraph.Dict

/-!
# Values

Scalars, arrays and maps are plain data. A host object is known here only by its
class and by the handle of the instance behind it; what it holds lives with the host.
-/
namespace ObjectGraph

/-- A host class: its number in the host's registry, and its name. -/
structure ClassRef where
  id : Nat
  name : String
  deriving DecidableEq

/-- An instance seen through a class. The handle identifies the instance. -/
structure ObjectRef where
  cls : ClassRef
  handle : String
  deriving DecidableEq

namespace ObjectRef

/-- Identity of the instances, whatever the classes. -/
def same (a b : ObjectRef) : Bool := a.handle = b.handle

def display (o : ObjectRef) : String := o.cls.name ++ "@" ++ o.handle

end ObjectRef

inductive Value
  | null
  | boolean (b : Bool)
  | integer (n : Int64)
  | float (x : Binary64)
  | string (s : String)
  | array (items : List Value)
  | map (entries : Entries Value none)
  | object (o : ObjectRef)

/-- What is known of a fragment's value before it runs. A boolean fragment is a native
truth value; a dynamic one is known only when it runs. -/
inductive TypeHint
  | dynamic
  | null
  | boolean
  | integer
  | float
  | string
  | array
  | map
  | object (cls : String)
  deriving DecidableEq

def TypeHint.display : TypeHint → String
  | dynamic => "dynamic"
  | null => "null"
  | boolean => "boolean"
  | integer => "integer"
  | float => "float"
  | string => "string"
  | array => "array"
  | map => "map"
  | object cls => cls

/-- The hint as a term. -/
def TypeHint.inspect (quote : String → String) : TypeHint → String
  | dynamic => "Dynamic"
  | null => "Null"
  | boolean => "Boolean"
  | integer => "Integer"
  | float => "Float"
  | string => "String"
  | array => "Array"
  | map => "Map"
  | object cls => "Object(" ++ quote cls ++ ")"

namespace Value

instance : Inhabited Value := ⟨null⟩

def isNull : Value → Bool
  | null => true
  | _ => false

/-- The class name for host objects. -/
def typeName : Value → String
  | null => "null"
  | boolean _ => "boolean"
  | integer _ => "integer"
  | float _ => "float"
  | string _ => "string"
  | array _ => "array"
  | map _ => "map"
  | object o => o.cls.name

def typeHint : Value → TypeHint
  | null => .null
  | boolean _ => .boolean
  | integer _ => .integer
  | float _ => .float
  | string _ => .string
  | array _ => .array
  | map _ => .map
  | object o => .object o.cls.name

def asString? : Value → Option String
  | string s => some s
  | _ => none

def asInteger? : Value → Option Int64
  | integer n => some n
  | _ => none

def asObject? : Value → Option ObjectRef
  | object o => some o
  | _ => none

/-- Null, false, numeric zero and the empty string are false; all else is true. -/
def truthy : Value → Bool
  | null => false
  | boolean b => b
  | integer n => n ≠ 0
  | float x => !x.isZero
  | string s => !s.isEmpty
  | array _ => true
  | map _ => true
  | object _ => true

/-- A count as a value: an integer, or the nearest double above the integer range. -/
def ofNat (n : Nat) : Value :=
  if n < 0x8000000000000000 then integer (Int64.ofNat n) else float (Binary64.ofNat n)

end Value
end ObjectGraph
