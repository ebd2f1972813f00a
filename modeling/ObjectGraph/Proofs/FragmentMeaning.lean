import ObjectGraph.Generation
import ObjectGraph.Proofs.FragmentText

/-!
# What a fragment computes

The reading of a fragment as a program over a context and a target, with the functions of
`Navigation` for those that it calls. The text of every part is a path, a call, a literal or a
block, or stands in parentheses, so a text groups as its fragment does. A fragment that is put
together wrongly means nothing: one with a value where a truth value belongs or the other way
round, or with a blank part.
-/
namespace ObjectGraph

variable {σ : Type}

/-- A program of one of the two kinds. -/
inductive Code (σ : Type)
  | value (run : Run σ EvalError Value)
  | truth (run : Run σ EvalError Bool)

namespace Code

def value? : Code σ → Option (Run σ EvalError Value)
  | value run => some run
  | truth _ => none

def truth? : Code σ → Option (Run σ EvalError Bool)
  | value _ => none
  | truth run => some run

/-- The truth of a program of either kind. -/
def truthiness : Code σ → Run σ EvalError Bool
  | value run => do
    let v ← run
    return v.truthy
  | truth run => run

theorem value?_eq_some {code : Option (Code σ)} {run : Run σ EvalError Value} :
    (code >>= Code.value?) = some run ↔ code = some (.value run) := by
  cases code with
  | none => simp
  | some code => cases code <;> simp [value?]

theorem truth?_eq_some {code : Option (Code σ)} {run : Run σ EvalError Bool} :
    (code >>= Code.truth?) = some run ↔ code = some (.truth run) := by
  cases code with
  | none => simp
  | some code => cases code <;> simp [truth?]

end Code

namespace Fragment

variable (classes : Registry σ) (ctx : Context σ) (target : Value)

mutual
/-- What the fragment computes, from left to right; an error ends it. All doubles that are not
numbers have one text, which stands for the one that was rendered. -/
def meaning : Fragment → Option (Code σ)
  | blank => none
  | nullValue => some (.value (pure .null))
  | truth b => some (.truth (pure b))
  | integer n => some (.value (pure (.integer n)))
  | float x => some (.value (pure (.float x)))
  | string s => some (.value (pure (.string s)))
  | rootPlace => some (.value (pure ctx.root))
  | targetPlace => some (.value (pure target))
  | group f => do
    let here ← f.meaning >>= Code.value?
    return .value here
  | clone place => do
    let here ← place.meaning >>= Code.value?
    return .value here
  | var name => some (.value (pure (ctx.valueOf name)))
  | property place name => do
    let here ← place.meaning >>= Code.value?
    return .value (here >>= fun here => Navigation.getProperty classes ctx here name)
  | index place key => do
    let here ← place.meaning >>= Code.value?
    let key ← key.meaning >>= Code.value?
    return .value (here >>= fun here => key >>= fun key => Navigation.getIndex classes ctx here key)
  | subscript place s => do
    let here ← place.meaning >>= Code.value?
    return .value (here >>= fun here => Navigation.getSubscript ctx here s)
  | call place name args => do
    let here ← place.meaning >>= Code.value?
    let args ← meanings args
    return .value (here >>= fun here =>
      args >>= fun args => Navigation.callMethod classes ctx here name args)
  | not operand => do
    let operand ← operand.meaning
    return .truth (operand.truthiness >>= fun b => pure !b)
  | guard op first rest => do
    let first ← first.meaning >>= Code.value?
    let rest ← rest.meaning >>= Code.value?
    return .value (first >>= fun v => if op.stopsAt v.truthy then pure v else rest)
  | equal left right => do
    let left ← left.meaning >>= Code.value?
    let right ← right.meaning >>= Code.value?
    return .truth (left >>= fun l => right >>= fun r => pure (l.equals r))
  | differ left right => do
    let left ← left.meaning >>= Code.value?
    let right ← right.meaning >>= Code.value?
    return .truth (left >>= fun l => right >>= fun r => pure !l.equals r)
  | boxed f => do
    let b ← f.meaning >>= Code.truth?
    return .value (b >>= fun b => pure (.boolean b))
termination_by structural f => f

/-- The values of the fragments, one after the other. -/
def meanings : List Fragment → Option (Run σ EvalError (List Value))
  | [] => some (pure [])
  | f :: fs => do
    let first ← f.meaning >>= Code.value?
    let rest ← meanings fs
    return first >>= fun v => rest >>= fun vs => pure (v :: vs)
termination_by structural fs => fs
end

attribute [grind =] meaning meanings

variable {classes ctx target}

/-- A fragment that is no native truth value computes a value, if anything. -/
theorem exists_value_of_meaning {f : Fragment} (hf : f.isNative = false) {code : Code σ}
    (h : f.meaning classes ctx target = some code) : ∃ run, code = .value run := by
  have hmap {α : Type} {x : Option α} {g : α → Run σ EvalError Value}
      (hx : (x >>= fun a => some (Code.value (g a))) = some code) : ∃ run, code = .value run := by
    obtain ⟨a, _, ha⟩ := Option.bind_eq_some_iff.1 hx
    exact ⟨g a, (Option.some.inj ha).symm⟩
  cases f with
  | blank => cases h
  | truth b => cases hf
  | not operand => cases hf
  | equal left right => cases hf
  | differ left right => cases hf
  | index place key =>
    obtain ⟨_, _, h⟩ := Option.bind_eq_some_iff.1 h
    exact hmap h
  | call place name args =>
    obtain ⟨_, _, h⟩ := Option.bind_eq_some_iff.1 h
    exact hmap h
  | guard op first rest =>
    obtain ⟨_, _, h⟩ := Option.bind_eq_some_iff.1 h
    exact hmap h
  | group f => exact hmap h
  | clone place => exact hmap h
  | property place name => exact hmap h
  | subscript place s => exact hmap h
  | boxed f => exact hmap h
  | _ => exact ⟨_, (Option.some.inj h).symm⟩

end Fragment
end ObjectGraph
