import ObjectGraph.Action
import ObjectGraph.Error
import ObjectGraph.Host.Member
import ObjectGraph.Text.Joined

/-!
# Class tables

A host registers the members of a class one after the other, each with the code that
reads, writes or runs it. The table keeps the last registration of every field name
and of every method name, and the last indexer. The code of a member acts on the
host's own state, of type `σ`, and gets the handle of the instance.
-/
namespace ObjectGraph

/-- Host code. -/
abbrev HostCode (σ α : Type) := Action σ EvalError α

structure Field (σ : Type) where
  visibility : Visibility
  read : String → HostCode σ Value
  write : Option (String → Value → HostCode σ Unit)

structure Method (σ : Type) where
  visibility : Visibility
  /-- The fixed count of arguments, if there is one. -/
  arity : Option Nat
  body : String → List Value → HostCode σ Value

structure Indexer (σ : Type) where
  visibility : Visibility
  read : String → Value → HostCode σ Value
  write : Option (String → Value → Value → HostCode σ Unit)

structure ClassTable (σ : Type) where
  fields : Dict (Field σ)
  methods : Dict (Method σ)
  indexer : Option (Indexer σ)

/-- The classes of a host. -/
abbrev Registry (σ : Type) := ClassRef → ClassTable σ

inductive Registration (σ : Type)
  | field (name : String) (visibility : Visibility) (read : String → HostCode σ Value)
  | writableField (name : String) (visibility : Visibility) (read : String → HostCode σ Value)
      (write : String → Value → HostCode σ Unit)
  | method (name : String) (visibility : Visibility) (arity : Nat)
      (body : String → List Value → HostCode σ Value)
  | variadic (name : String) (visibility : Visibility)
      (body : String → List Value → HostCode σ Value)
  | indexer (visibility : Visibility) (read : String → Value → HostCode σ Value)
  /-- Makes the indexer registered before it writable. -/
  | indexSetter (write : String → Value → Value → HostCode σ Unit)

/-- How a property name resolves. -/
inductive Property (σ : Type)
  | field (name : String) (field : Field σ)
  /-- A method without arguments that stands in for a property. -/
  | getter (name : String) (method : Method σ)

namespace ClassTable

variable {σ : Type}

def empty : ClassTable σ := ⟨Dict.empty, Dict.empty, none⟩

def register (table : ClassTable σ) : Registration σ → ClassTable σ
  | .field name visibility read =>
    { table with fields := table.fields.insert name ⟨visibility, read, none⟩ }
  | .writableField name visibility read write =>
    { table with fields := table.fields.insert name ⟨visibility, read, some write⟩ }
  | .method name visibility arity body =>
    { table with methods := table.methods.insert name ⟨visibility, some arity, body⟩ }
  | .variadic name visibility body =>
    { table with methods := table.methods.insert name ⟨visibility, none, body⟩ }
  | .indexer visibility read => { table with indexer := some ⟨visibility, read, none⟩ }
  | .indexSetter write =>
    { table with indexer := table.indexer.map fun ix => { ix with write := some write } }

def build (registrations : List (Registration σ)) : ClassTable σ :=
  registrations.foldl register empty

def field? (table : ClassTable σ) (name : String) : Option (Field σ) := table.fields.find? name

def method? (table : ClassTable σ) (name : String) : Option (Method σ) :=
  table.methods.find? name

/-- The method of that name, if it takes no arguments. -/
def getter? (table : ClassTable σ) (name : String) : Option (Property σ) :=
  (table.method? name).bind fun m => if m.arity = some 0 then some (.getter name m) else none

/-- A field comes first, then a method without arguments of that name, with `get_` or
with `is_` in front. -/
def property? (table : ClassTable σ) (name : String) : Option (Property σ) :=
  match table.field? name with
  | some f => some (.field name f)
  | none =>
    (table.getter? name).or
      ((table.getter? ("get_" ++ name)).or (table.getter? ("is_" ++ name)))

/-- A method `set_` name with exactly one argument. -/
def setter? (table : ClassTable σ) (name : String) : Option (String × Method σ) :=
  (table.method? ("set_" ++ name)).bind fun m =>
    if m.arity = some 1 then some ("set_" ++ name, m) else none

end ClassTable

def Field.member {σ : Type} (f : Field σ) (cls : ClassRef) (name : String) : Member :=
  ⟨cls, name, .field, f.visibility⟩

def Method.member {σ : Type} (m : Method σ) (cls : ClassRef) (name : String) : Member :=
  ⟨cls, name, .method, m.visibility⟩

def Indexer.member {σ : Type} (ix : Indexer σ) (cls : ClassRef) : Member :=
  ⟨cls, indexerName, .indexer, ix.visibility⟩

def Property.member {σ : Type} (cls : ClassRef) : Property σ → Member
  | field name f => f.member cls name
  | getter name m => m.member cls name

namespace ClassTable

variable {σ : Type}

/-- Every member of the class: fields, methods, then the indexer. -/
def members (table : ClassTable σ) (cls : ClassRef) : List Member :=
  table.fields.toList.map (fun entry => entry.2.member cls entry.1) ++
    table.methods.toList.map (fun entry => entry.2.member cls entry.1) ++
    table.indexer.toList.map (fun ix => ix.member cls)

def quotedList (names : List String) : String :=
  "[" ++ Text.joined ", " (names.map Text.quote) ++ "]"

def inspect (table : ClassTable σ) (cls : ClassRef) : String :=
  "ClassDescriptor \x7b name: " ++ Text.quote cls.name ++ ", fields: " ++
    quotedList table.fields.keys ++ ", methods: " ++ quotedList table.methods.keys ++
    ", indexer: " ++ Member.boolWord table.indexer.isSome ++ " \x7d"

end ClassTable
end ObjectGraph
