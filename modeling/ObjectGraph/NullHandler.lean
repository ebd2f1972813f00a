import ObjectGraph.Host.World
import ObjectGraph.Value.Display
import ObjectGraph.Value.Equality

/-!
# Null handlers

A navigation step that comes to null asks the handler for the target's type, or else
the fallback, for a substitute. Without a handler null stays null.
-/
namespace ObjectGraph

namespace Key

def display : Key → String
  | name n => n
  | index key => "[" ++ key.display ++ "]"
  | subscript s => s.display

def same : Key → Key → Bool
  | name a, name b => a = b
  | index a, index b => a.equals b
  | subscript a, subscript b => a = b
  | _, _ => false

end Key

/-- A handler sees the bindings and may act on the host. Of the context it sees nothing else: not
the policy, not the other handlers, and not the hint and the place that generation keeps there. So
its answers are for handlers that do not ask which policy is in force or whether code is being
generated. -/
structure NullHandler (σ : Type) where
  property : Bindings → Value → Key → σ → Value × σ
  method : Bindings → Value → String → List Value → σ → Value × σ

namespace NullHandler

variable {σ : Type}

/-- One value for every null. -/
def constant (value : Value) : NullHandler σ where
  property _ _ _ s := (value, s)
  method _ _ _ _ s := (value, s)

/-- Leaves every null as it is. -/
def identity : NullHandler σ := constant .null

def answer (h : NullHandler σ) (b : Bindings) : Step → σ → Value × σ
  | .property target key => h.property b target key
  | .method target name args => h.method b target name args

end NullHandler

structure NullHandlers (σ : Type) where
  fallback : Option (NullHandler σ)
  byType : Dict (NullHandler σ)

namespace NullHandlers

variable {σ : Type}

def none : NullHandlers σ := ⟨Option.none, Dict.empty⟩

def isEmpty (hs : NullHandlers σ) : Bool := hs.fallback.isNone && hs.byType.isEmpty

/-- The handler of a type name, with the name under which it is registered. -/
def handler? (hs : NullHandlers σ) (typeName : String) : Option (Option String × NullHandler σ) :=
  match hs.byType.find? typeName with
  | some h => some (some typeName, h)
  | Option.none => hs.fallback.map fun h => (Option.none, h)

/-- The substitute for the null that a step came to. -/
def fill {ε : Type} (hs : NullHandlers σ) (b : Bindings) (step : Step) : Run σ ε Value := fun w =>
  match hs.handler? step.target.typeName with
  | Option.none => (.ok .null, w)
  | some (slot, h) =>
    let (value, host) := h.answer b step w.host
    (.ok value, { w with host }.record (.substituted slot step value))

def inspect (hs : NullHandlers σ) : String :=
  "NullHandlers \x7b fallback: " ++ Member.boolWord hs.fallback.isSome ++ ", by_type: " ++
    ClassTable.quotedList hs.byType.keys ++ " \x7d"

end NullHandlers
end ObjectGraph
