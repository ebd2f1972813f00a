import ObjectGraph.Evaluation

/-!
# A host of slots

A small host whose classes are described by data. An instance holds named slots and
index entries. Every piece of host code writes a line to the host's log before it does
anything else, so the log tells which code ran, in which order and with which
arguments.
-/
namespace ObjectGraph

structure Instance where
  slots : Dict Value
  entries : Dict Value

structure SlotHost where
  instances : Dict Instance
  log : Array String

namespace SlotHost

def empty : SlotHost := ⟨Dict.empty, #[]⟩

def say (line : String) (host : SlotHost) : SlotHost := { host with log := host.log.push line }

/-- An instance that was never set up holds nothing. -/
def instanceOf (host : SlotHost) (handle : String) : Instance :=
  (host.instances.find? handle).getD ⟨Dict.empty, Dict.empty⟩

def slot (host : SlotHost) (handle name : String) : Value :=
  ((host.instanceOf handle).slots.find? name).getD .null

def setSlot (host : SlotHost) (handle name : String) (value : Value) : SlotHost :=
  let held := host.instanceOf handle
  { host with
    instances := host.instances.insert handle { held with slots := held.slots.insert name value } }

def entry (host : SlotHost) (handle key : String) : Value :=
  ((host.instanceOf handle).entries.find? key).getD .null

def setEntry (host : SlotHost) (handle key : String) (value : Value) : SlotHost :=
  let held := host.instanceOf handle
  { host with
    instances :=
      host.instances.insert handle { held with entries := held.entries.insert key value } }

/-- The ways in which host code may fail. -/
inductive Failure
  | wrongType (message : String)
  | nullSource (message : String)
  | noMember (message : String)
  | outOfBounds
  | notAssignable (message : String)
  | unbalanced (message : String)
  /-- A failure with a cause below it. -/
  | wrapped (message : String)
  | plain (message : String)

def Failure.error : Failure → EvalError
  | wrongType message => .typeError message
  | nullSource message => .nullSource "hostCall" message
  | noMember message => .noSuchMember "host" message
  | outOfBounds => .indexOutOfBounds (-1) 0
  | notAssignable message => .notAssignable message
  | unbalanced message => .access (.unbalanced message)
  | wrapped message => .host "outer context" [message]
  | plain message => .host message []

/-- What a method does. -/
inductive Body
  | null
  | slot (name : String)
  | arg (index : Nat)
  | args
  /-- Stores the first argument. -/
  | store (slot : String)
  /-- Adds one to the integer in a slot. -/
  | count (slot : String)
  | fail (failure : Failure)

inductive MemberSpec
  | field (name : String) (visibility : Visibility) (slot : String)
  | writableField (name : String) (visibility : Visibility) (slot : String)
      (failure : Option Failure)
  | method (name : String) (visibility : Visibility) (arity : Nat) (body : Body)
  | variadic (name : String) (visibility : Visibility) (body : Body)
  | indexer (visibility : Visibility) (failure : Option Failure)
  | indexSetter (failure : Option Failure)

abbrev Code (α : Type) := HostCode SlotHost α

def logged (line : String) : Code Unit := Action.modify (say line)

def failing : Option Failure → Code Unit
  | some failure => Action.fail failure.error
  | none => pure ()

def readSlot (handle slotName : String) : Code Value :=
  Action.step fun host => (host.slot handle slotName, host)

def writeSlot (handle slotName : String) (value : Value) : Code Unit :=
  Action.modify fun host => host.setSlot handle slotName value

def argumentText (args : List Value) : String := Text.joined ", " (args.map Value.display)

def runBody (handle : String) (args : List Value) : Body → Code Value
  | .null => pure .null
  | .slot name => readSlot handle name
  | .arg index => pure (args[index]?.getD .null)
  | .args => pure (.array args)
  | .store name => do
    writeSlot handle name (args.head?.getD .null)
    return .null
  | .count name => do
    let before ← readSlot handle name
    let after := Value.integer (before.asInteger?.getD 0 + 1)
    writeSlot handle name after
    return after
  | .fail failure => Action.fail failure.error

def fieldCode (cls name slotName handle : String) : Code Value := do
  logged ("get " ++ cls ++ "." ++ name)
  readSlot handle slotName

def fieldSetCode (cls name slotName : String) (failure : Option Failure) (handle : String)
    (value : Value) : Code Unit := do
  logged ("set " ++ cls ++ "." ++ name ++ " = " ++ value.display)
  failing failure
  writeSlot handle slotName value

def methodCode (cls name : String) (body : Body) (handle : String) (args : List Value) :
    Code Value := do
  logged ("call " ++ cls ++ "." ++ name ++ "(" ++ argumentText args ++ ")")
  runBody handle args body

def indexCode (cls : String) (failure : Option Failure) (handle : String) (key : Value) :
    Code Value := do
  logged ("index " ++ cls ++ ".[] " ++ key.display)
  failing failure
  Action.step fun host => (host.entry handle key.display, host)

def indexSetCode (cls : String) (failure : Option Failure) (handle : String)
    (key value : Value) : Code Unit := do
  logged ("index-set " ++ cls ++ ".[] " ++ key.display ++ " = " ++ value.display)
  failing failure
  Action.modify fun host => host.setEntry handle key.display value

def registration (cls : String) : MemberSpec → Registration SlotHost
  | .field name visibility slotName => .field name visibility (fieldCode cls name slotName)
  | .writableField name visibility slotName failure =>
    .writableField name visibility (fieldCode cls name slotName)
      (fieldSetCode cls name slotName failure)
  | .method name visibility arity body => .method name visibility arity (methodCode cls name body)
  | .variadic name visibility body => .variadic name visibility (methodCode cls name body)
  | .indexer visibility failure => .indexer visibility (indexCode cls failure)
  | .indexSetter failure => .indexSetter (indexSetCode cls failure)

structure ClassSpec where
  ref : ClassRef
  members : List MemberSpec

def ClassSpec.table (spec : ClassSpec) : ClassTable SlotHost :=
  ClassTable.build (spec.members.map (registration spec.ref.name))

/-- The tables of the described classes; any other class is empty. -/
def registry (specs : List ClassSpec) : Registry SlotHost :=
  let tables := specs.map fun spec => (spec.ref, spec.table)
  fun ref => ((tables.find? fun entry => entry.1 = ref).map Prod.snd).getD ClassTable.empty

def tokenText : Token → String
  | .unchanged => "unchanged"
  | .elevated wasAccessible => "elevated:" ++ Member.boolWord wasAccessible

def accessText (access : Access) : String :=
  access.target.typeName ++ " " ++ access.member.display ++ " " ++ access.property

def sayShared (line : String) (s : Shared SlotHost) : Shared SlotHost :=
  { s with host := s.host.say line }

/-- A visibility policy that logs each answer and setup after the decision, and each
restore before it. -/
def tracing (p : VisibilityPolicy) : Policy SlotHost where
  isAccessible _ access s :=
    let allowed := p.permits access.member.visibility
    (allowed,
      sayShared ("is_accessible " ++ accessText access ++ " " ++ Member.boolWord allowed) s)
  setup _ access s :=
    let (token, s) := p.setup access s
    (token, sayShared ("setup " ++ accessText access ++ " " ++ tokenText token) s)
  restore _ access token s :=
    VisibilityPolicy.restore access token
      (sayShared ("restore " ++ accessText access ++ " " ++ tokenText token) s)
  description := p.inspect

/-- A policy by the name of the property and the type of the target. Its setup gives the
token without elevating, or elevates every visibility when there is none. -/
def listing (names types : Option (List String)) (token : Option Token) : Policy SlotHost where
  isAccessible _ access s :=
    ((match names with
      | some names => names.contains access.property
      | none => true) &&
      (match types with
        | some types => types.contains access.target.typeName
        | none => true), s)
  setup _ access s :=
    match token with
    | some token => (token, s)
    | none => (VisibilityPolicy.all true).setup access s
  restore _ access token s := VisibilityPolicy.restore access token s
  description := (VisibilityPolicy.all true).inspect

def keyKind : Key → String
  | .name _ => "name"
  | .index _ => "index"
  | .subscript _ => "subscript"

/-- Logs each null that it is asked about. -/
def recording (label : String) (property method : Value) : NullHandler SlotHost where
  property _ target key host :=
    (property, host.say ("null-property " ++ label ++ " " ++ target.typeName ++ " " ++
      keyKind key ++ " " ++ key.display))
  method _ target name args host :=
    (method, host.say ("null-method " ++ label ++ " " ++ target.typeName ++ " " ++ name ++ "(" ++
      argumentText args ++ ")"))

end SlotHost
end ObjectGraph
