import ObjectGraph.Navigation

/-!
# Plain data

A value is plain when no host object occurs in it at any depth. Navigation through plain data
never leaves it: what the methods and reads of strings, arrays and maps come to has every
property that scalars have and that arrays and maps hand down to their parts, or it is one of
five kinds of error.
-/
namespace ObjectGraph

/-- The errors that navigation itself raises, without any host code. -/
def EvalError.ofData : EvalError → Bool
  | nullSource _ _ => true
  | noSuchMember _ _ => true
  | indexOutOfBounds _ _ => true
  | typeError _ => true
  | arity _ _ _ => true
  | _ => false

namespace Value

mutual
/-- No host object at any depth. -/
def isPlain : Value → Bool
  | array items => plainItems items
  | map entries => plainEntries entries
  | object _ => false
  | _ => true
termination_by structural v => v

def plainItems : List Value → Bool
  | [] => true
  | item :: items => item.isPlain && plainItems items
termination_by structural items => items

def plainEntries {bound : Option String} : Entries Value bound → Bool
  | .nil => true
  | .cons _ value _ rest => value.isPlain && plainEntries rest
termination_by structural entries => entries
end

abbrev Plain (v : Value) : Prop := v.isPlain = true

theorem isPlain_of_mem {items : List Value} (h : plainItems items = true) {item : Value}
    (hmem : item ∈ items) : item.isPlain = true := by
  induction items with
  | nil => cases hmem
  | cons head tail ih =>
    simp only [plainItems, Bool.and_eq_true] at h
    rcases List.mem_cons.1 hmem with rfl | hmem
    · exact h.1
    · exact ih h.2 hmem

theorem isPlain_of_find? {bound : Option String} {entries : Entries Value bound}
    (h : plainEntries entries = true) {key : String} {value : Value}
    (hfind : entries.find? key = some value) : value.isPlain = true := by
  induction entries with
  | nil => cases hfind
  | cons key₀ value₀ above rest ih =>
    simp only [plainEntries, Bool.and_eq_true] at h
    by_cases hkey : key = key₀
    · simp only [Entries.find?, hkey, if_true, Option.some.injEq] at hfind
      exact hfind ▸ h.1
    · simp only [Entries.find?, hkey, if_false] at hfind
      exact ih h.2 hfind

/-- A property of values that scalars have and that arrays and maps hand down. -/
structure HandedDown (P : Value → Prop) : Prop where
  null : P .null
  boolean (b : Bool) : P (.boolean b)
  integer (n : Int64) : P (.integer n)
  float (x : Binary64) : P (.float x)
  string (s : String) : P (.string s)
  item {items : List Value} {v : Value} : P (.array items) → v ∈ items → P v
  entry {entries : Dict Value} {key : String} {v : Value} :
    P (.map entries) → entries.find? key = some v → P v

theorem handedDown_plain : HandedDown Plain where
  null := rfl
  boolean _ := rfl
  integer _ := rfl
  float _ := rfl
  string _ := rfl
  item h hmem := isPlain_of_mem h hmem
  entry h hfind := isPlain_of_find? h hfind

theorem handedDown_true : HandedDown fun _ => True := by
  constructor <;> intros <;> trivial

theorem HandedDown.ofNat {P : Value → Prop} (hP : HandedDown P) (n : Nat) : P (.ofNat n) := by
  unfold Value.ofNat
  split
  · exact hP.integer _
  · exact hP.float _

theorem HandedDown.entryAt {P : Value → Prop} (hP : HandedDown P) {entries : Dict Value}
    (h : P (.map entries)) (key : String) : P (Builtin.entryAt entries key) := by
  unfold Builtin.entryAt
  cases hfind : entries.find? key with
  | none => exact hP.null
  | some v => exact hP.entry h hfind

end Value

/-- A value with that property, or an error that navigation itself raises. -/
def Yields (P : Value → Prop) : Except EvalError Value → Prop
  | .ok v => P v
  | .error e => e.ofData = true

namespace Builtin

variable {P : Value → Prop}

theorem yields_nullary {name : String} {args : List Value} {result : Value} (h : P result) :
    Yields P (nullary name args result) := by
  unfold nullary
  split
  · exact h
  · rfl

theorem yields_unary {name : String} {args : List Value} {result : Value → Except EvalError Value}
    (h : ∀ arg, Yields P (result arg)) : Yields P (unary name args result) := by
  unfold unary
  split
  · exact h _
  · rfl

theorem yields_expecting {α : Type} {message : String} {x : Option α}
    {result : α → Except EvalError Value} (h : ∀ a, Yields P (result a)) :
    Yields P (expecting message x >>= result) := by
  cases x with
  | some a => exact h a
  | none => rfl

theorem yields_itemAt (hP : Value.HandedDown P) {items : List Value} (h : P (.array items))
    (index : Int64) : Yields P (itemAt items index) := by
  unfold itemAt
  split
  · rename_i item hitem
    split at hitem
    · cases hitem
    · exact hP.item h (List.mem_of_getElem? hitem)
  · rfl

theorem yields_call (hP : Value.HandedDown P) {target : Value} (h : P target) (name : String)
    (args : List Value) : Yields P (call target name args) := by
  unfold call
  split <;> first
    | exact yields_nullary (hP.ofNat _)
    | exact yields_nullary (hP.boolean _)
    | exact yields_nullary (hP.string _)
    | exact yields_unary fun arg => yields_expecting fun needle => hP.boolean _
    | exact yields_unary fun arg => hP.boolean _
    | exact yields_unary fun arg => yields_expecting fun key => hP.entryAt h key
    | exact yields_unary fun arg => yields_expecting fun index => yields_itemAt hP h index
    | rfl

end Builtin

namespace Navigation

variable {P : Value → Prop}

theorem yields_subscriptOf (hP : Value.HandedDown P) {source : Value} (h : P source)
    (s : Subscript) : Yields P (subscriptOf source s) := by
  cases source with
  | array items =>
    simp only [subscriptOf]
    split
    · exact h
    · cases hitem : (s.position? items.length).bind fun i => items[i]? with
      | none => exact hP.null
      | some item =>
        obtain ⟨i, _, hi⟩ := Option.bind_eq_some_iff.1 hitem
        exact hP.item h (List.mem_of_getElem? hi)
  | null => rfl
  | boolean b => rfl
  | integer n => rfl
  | float x => rfl
  | string t => rfl
  | map entries => rfl
  | object o => rfl

end Navigation
end ObjectGraph
