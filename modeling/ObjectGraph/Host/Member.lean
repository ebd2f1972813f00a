import ObjectGraph.Text.Quoted
import ObjectGraph.Value

/-!
# Members of host classes

A member is a field, a method or the indexer of a class. Whether it can be reached
right now is a matter of two things kept for it: a flag that the host sets, and a
count of live elevations.
-/
namespace ObjectGraph

inductive Visibility
  | isPublic
  | isProtected
  | isPackage
  | isPrivate
  deriving DecidableEq

inductive MemberKind
  | field
  | method
  | indexer
  deriving DecidableEq

structure Member where
  cls : ClassRef
  name : String
  kind : MemberKind
  visibility : Visibility
  deriving DecidableEq

/-- The name under which every indexer is known. -/
def indexerName : String := "[]"

structure Accessibility where
  flag : Bool
  elevations : UInt64
  deriving DecidableEq

namespace Accessibility

def canAccess (a : Accessibility) : Bool := a.flag || 0 < a.elevations

end Accessibility

def Visibility.word : Visibility → String
  | isPublic => "Public"
  | isProtected => "Protected"
  | isPackage => "Package"
  | isPrivate => "Private"

def MemberKind.word : MemberKind → String
  | field => "Field"
  | method => "Method"
  | indexer => "Indexer"

namespace Member

def isPublic (m : Member) : Bool := m.visibility = .isPublic

def display (m : Member) : String := m.cls.name ++ "::" ++ m.name

/-- What a freshly registered member starts with: public ones are flagged. -/
def fresh (m : Member) : Accessibility := ⟨m.isPublic, 0⟩

def boolWord (b : Bool) : String := if b then "true" else "false"

def inspect (m : Member) (a : Accessibility) : String :=
  "Member \x7b name: " ++ Text.quote m.name ++ ", declaring_class: " ++ Text.quote m.cls.name ++
    ", kind: " ++ m.kind.word ++ ", visibility: " ++ m.visibility.word ++ ", accessible: " ++
    boolWord a.flag ++ ", elevations: " ++ toString a.elevations.toNat ++ " \x7d"

end Member
end ObjectGraph
