/-!
# Errors

Each error is its cause; `message` is its one wording.
-/
namespace ObjectGraph

/-- Breaches of the elevation protocol. -/
inductive AccessError
  /-- A token that no elevation gives. -/
  | improperRestore (target member property : String)
  /-- A release without a grant. -/
  | unbalanced (member : String)
  deriving DecidableEq

namespace AccessError

def message : AccessError → String
  | improperRestore target member property =>
    "improper restore state [true] for target [" ++ target ++ "], member [" ++ member ++
      "], propertyName [" ++ property ++ "]"
  | unbalanced member => "restore of member [" ++ member ++ "] without a matching elevation"

end AccessError

/-- Failures of evaluation and assignment. -/
inductive EvalError
  | nullSource (operation name : String)
  | noSuchMember (target name : String)
  | inaccessible (cls member : String)
  | indexOutOfBounds (index : Int64) (length : Nat)
  | typeError (message : String)
  | arity (name : String) (expected found : Nat)
  | notAssignable (what : String)
  | access (error : AccessError)
  /-- A failure of host code, with the messages of its causes. -/
  | host (message : String) (causes : List String)
  deriving DecidableEq

namespace EvalError

def message : EvalError → String
  | nullSource operation name =>
    "source is null for " ++ operation ++ "(null, \"" ++ name ++ "\")"
  | noSuchMember target name => "no member '" ++ name ++ "' on " ++ target
  | inaccessible cls member => "member '" ++ member ++ "' of " ++ cls ++ " is not accessible"
  | indexOutOfBounds index length =>
    "index " ++ toString index.toInt ++ " out of bounds for length " ++ toString length
  | typeError message => "type error: " ++ message
  | arity name expected found =>
    "method '" ++ name ++ "' expects " ++ toString expected ++ " argument(s), got " ++
      toString found
  | notAssignable what => "expression is not assignable: " ++ what
  | access error => error.message
  | host message _ => message

end EvalError
end ObjectGraph
