import Mathlib.Data.List.Forall2
import ObjectGraph.Proofs.FragmentMeaning
import ObjectGraph.Proofs.Renderings

/-!
# Code that does what evaluation does

A fragment has the fragment of a chain's prefix in it wherever it reads its source. The code of the
prefix then runs as often as it stands there and as late as its turn comes, while evaluation runs
the prefix once and first. Where every link after a prefix that navigates has it once, before all
else, the code does exactly what evaluation does, to host objects as well.
-/
namespace ObjectGraph

variable {σ α : Type}

/-- What a fragment may do with the place that it navigates from: have it as often as it likes, for
it does nothing; have it once and run it first; or not have it. -/
inductive Usage
  | free
  | once
  | never
  deriving DecidableEq

namespace Usage

/-- What is left to the operands after the first. -/
def later : Usage → Usage
  | once => never
  | u => u

/-- What the links after a link may do with its fragment. -/
def through (u : Usage) (link : Expr) : Usage :=
  if u ≠ once ∧ link.navigations = 0 then free else once

end Usage

namespace Expr

mutual
/-- Whether the fragment of the expression keeps to the usage, and its parts to theirs. -/
def fits : Expr → Usage → Bool
  | const _, u => u ≠ .once
  | root, u => u ≠ .once
  | source, u => u ≠ .never
  | var _, u => u ≠ .once
  | property _, u => u ≠ .never
  | index key, u => u ≠ .never && key.fits .free
  | subscript _, u => u ≠ .never
  | method _ args, u => u ≠ .never && allFit args .free
  | chain links, u => linksFit links u
  | not operand, u => operand.fits u
  | logical _ operands, u => operandsFit operands u
  | compare _ left right, u => left.fits u && right.fits u.later
termination_by structural e => e

def allFit : List Expr → Usage → Bool
  | [], _ => true
  | e :: es, u => e.fits u && allFit es u
termination_by structural es => es

def operandsFit : List Expr → Usage → Bool
  | [], u => u ≠ .once
  | first :: rest, u => first.fits u && allFit rest u.later
termination_by structural operands => operands

/-- An empty chain has no code. -/
def linksFit : List Expr → Usage → Bool
  | [], _ => false
  | [last], u => last.fits u
  | link :: next :: links, u => link.fits u && linksFit (next :: links) (u.through link)
termination_by structural links => links
end

/-- Every link that navigates is what the links after it read once and first. -/
def isDirect (e : Expr) : Bool := e.fits .free

/-! ## Direct expressions are linear -/

/-- The count of reads that a usage allows. -/
def Reading (u : Usage) (reads : Nat) : Prop :=
  (u = .once → reads = 1) ∧ (u = .never → reads = 0)

theorem Reading.zero {u : Usage} (h : u ≠ .once) : Reading u 0 :=
  ⟨fun hu => absurd hu h, fun _ => rfl⟩

theorem Reading.one {u : Usage} (h : u ≠ .never) : Reading u 1 :=
  ⟨fun _ => rfl, fun hu => absurd hu h⟩

theorem Reading.add {u : Usage} {m n : Nat} (hm : Reading u m) (hn : Reading u.later n) :
    Reading u (m + n) := by
  constructor
  · rintro rfl
    rw [hm.1 rfl, hn.2 rfl]
  · rintro rfl
    rw [hm.2 rfl, hn.2 rfl]

mutual
theorem linear_of_fits : ∀ (e : Expr) (u : Usage), e.fits u = true →
    Reading u e.reads ∧ e.isLinear = true
  | const _, u, h => by
    simp only [fits, decide_eq_true_eq] at h
    exact ⟨.zero h, rfl⟩
  | root, u, h => by
    simp only [fits, decide_eq_true_eq] at h
    exact ⟨.zero h, rfl⟩
  | source, u, h => by
    simp only [fits, decide_eq_true_eq] at h
    exact ⟨.one h, rfl⟩
  | var _, u, h => by
    simp only [fits, decide_eq_true_eq] at h
    exact ⟨.zero h, rfl⟩
  | property _, u, h => by
    simp only [fits, decide_eq_true_eq] at h
    exact ⟨.one h, rfl⟩
  | index key, u, h => by
    simp only [fits, Bool.and_eq_true_iff, decide_eq_true_eq] at h
    exact ⟨.one h.1, (linear_of_fits key .free h.2).2⟩
  | subscript _, u, h => by
    simp only [fits, decide_eq_true_eq] at h
    exact ⟨.one h, rfl⟩
  | method _ args, u, h => by
    simp only [fits, Bool.and_eq_true_iff, decide_eq_true_eq] at h
    exact ⟨.one h.1, (linear_of_allFit args .free h.2).2⟩
  | chain links, u, h => linear_of_linksFit links u h
  | not operand, u, h => linear_of_fits operand u h
  | logical _ operands, u, h => linear_of_operandsFit operands u h
  | compare _ left right, u, h => by
    rw [fits, Bool.and_eq_true_iff] at h
    obtain ⟨hleft, hleftLinear⟩ := linear_of_fits left u h.1
    obtain ⟨hright, hrightLinear⟩ := linear_of_fits right u.later h.2
    exact ⟨hleft.add hright, Bool.and_eq_true_iff.2 ⟨hleftLinear, hrightLinear⟩⟩
termination_by structural e => e

theorem linear_of_allFit : ∀ (es : List Expr) (u : Usage), allFit es u = true →
    (u = .never → readsAll es = 0) ∧ allLinear es = true
  | [], _, _ => ⟨fun _ => rfl, rfl⟩
  | e :: es, u, h => by
    rw [allFit, Bool.and_eq_true_iff] at h
    obtain ⟨hone, hlinear⟩ := linear_of_fits e u h.1
    obtain ⟨hall, hallLinear⟩ := linear_of_allFit es u h.2
    refine ⟨fun hu => ?_, Bool.and_eq_true_iff.2 ⟨hlinear, hallLinear⟩⟩
    rw [readsAll, hone.2 hu, hall hu]
termination_by structural es => es

theorem linear_of_operandsFit : ∀ (operands : List Expr) (u : Usage),
    operandsFit operands u = true → Reading u (readsAll operands) ∧ allLinear operands = true
  | [], u, h => by
    simp only [operandsFit, decide_eq_true_eq] at h
    exact ⟨.zero h, rfl⟩
  | first :: rest, u, h => by
    rw [operandsFit, Bool.and_eq_true_iff] at h
    obtain ⟨hfirst, hlinear⟩ := linear_of_fits first u h.1
    obtain ⟨hrest, hrestLinear⟩ := linear_of_allFit rest u.later h.2
    refine ⟨hfirst.add ⟨fun hu => ?_, hrest⟩, Bool.and_eq_true_iff.2 ⟨hlinear, hrestLinear⟩⟩
    cases u <;> cases hu
termination_by structural operands => operands

theorem linear_of_linksFit : ∀ (links : List Expr) (u : Usage), linksFit links u = true →
    Reading u (readsLinks links) ∧ linearLinks links = true
  | [], _, h => absurd h Bool.false_ne_true
  | [last], u, h => linear_of_fits last u h
  | link :: next :: links, u, h => by
    rw [linksFit, Bool.and_eq_true_iff] at h
    obtain ⟨hlink, hlinear⟩ := linear_of_fits link u h.1
    obtain ⟨hrest, hrestLinear⟩ := linear_of_linksFit (next :: links) (u.through link) h.2
    have hthrough : link.navigations = 0 ∨ readsLinks (next :: links) = 1 := by
      by_cases hfree : u ≠ .once ∧ link.navigations = 0
      · exact .inl hfree.2
      · exact .inr (hrest.1 (if_neg hfree))
    refine ⟨⟨fun hu => ?_, fun hu => ?_⟩, ?_⟩
    · have hone : u.through link = .once := if_neg fun hfree => hfree.1 hu
      rw [readsLinks, hlink.1 hu, hrest.1 hone]
    · rw [readsLinks, hlink.2 hu, Nat.zero_mul]
    · simp only [linearLinks, Bool.and_eq_true_iff, Bool.or_eq_true_iff, decide_eq_true_eq]
      exact ⟨⟨hlinear, hthrough⟩, hrestLinear⟩
termination_by structural links => links
end

end Expr

/-! ## What code does -/

namespace Code

/-- The program as a value. -/
def run : Code σ → Run σ EvalError Value
  | value run => run
  | truth run => run >>= fun b => pure (.boolean b)

theorem truthiness_eq (code : Code σ) :
    code.truthiness = code.run >>= fun v => pure v.truthy := by
  cases code with
  | value action => rfl
  | truth test =>
    have htest :
        (test >>= fun b => pure (Value.boolean b)) >>= (fun v => pure v.truthy) = test := by
      simp only [bind_assoc, pure_bind, Value.truthy, bind_pure]
    exact htest.symm

end Code

section

variable (classes : Registry σ) (ctx : Context σ) (target : Value)

/-- The place does the action, if it means anything, and the action is one that the usage allows. -/
structure Supplies (u : Usage) (place : Fragment) (a : Run σ EvalError Value) : Prop where
  settled : u ≠ .once → ∃ v, a = pure v
  meaning : u ≠ .never → ∀ run, place.meaning classes ctx target = some (.value run) → run = a

/-- The fragment does the action, if it means anything. -/
structure Performs (f : Fragment) (a : Run σ EvalError Value) : Prop where
  ne_blank : f ≠ .blank
  run : ∀ code, f.meaning classes ctx target = some code → code.run = a

end

section

variable {classes : Registry σ} {ctx : Context σ} {target : Value} {u : Usage}
  {place f : Fragment} {a : Run σ EvalError Value}

namespace Performs

theorem asValue (h : Performs classes ctx target f a) (hint : Option TypeHint) :
    Performs classes ctx target (f.asValue hint) a := by
  rw [Fragment.asValue_of_ne_blank h.ne_blank]
  split
  · refine ⟨nofun, fun code hcode => ?_⟩
    obtain ⟨run, htruth, hreturn⟩ := Option.bind_eq_some_iff.1 hcode
    cases hreturn
    exact h.run (.truth run) (Code.truth?_eq_some.1 htruth)
  · exact h

theorem value (h : Performs classes ctx target f a) {run : Run σ EvalError Value}
    (hrun : (f.meaning classes ctx target >>= Code.value?) = some run) : run = a :=
  h.run _ (Code.value?_eq_some.1 hrun)

theorem not (h : Performs classes ctx target f a) :
    Performs classes ctx target (.not f) (a >>= fun v => pure (.boolean !v.truthy)) := by
  refine ⟨nofun, fun code hcode => ?_⟩
  obtain ⟨operand, hoperand, hreturn⟩ := Option.bind_eq_some_iff.1 hcode
  cases hreturn
  rw [Code.run, Code.truthiness_eq, h.run operand hoperand]
  simp only [bind_assoc, pure_bind]

end Performs

namespace Supplies

/-- The value in the place, if it does nothing, or else any value that it may come to. -/
def Yields (u : Usage) (a : Run σ EvalError Value) (v : Value) : Prop := u = .once ∨ a = pure v

theorem exists_yields (h : Supplies classes ctx target u place a) : ∃ v, Yields u a v := by
  by_cases hu : u = .once
  · exact ⟨.null, .inl hu⟩
  · obtain ⟨v, hv⟩ := h.settled hu
    exact ⟨v, .inr hv⟩

theorem bind_congr (h : Supplies classes ctx target u place a) {F G : Value → Run σ EvalError α}
    (hFG : ∀ v, Yields u a v → F v = G v) : a >>= F = a >>= G := by
  by_cases hu : u = .once
  · exact congrArg (a >>= ·) (funext fun v => hFG v (.inl hu))
  · obtain ⟨v, rfl⟩ := h.settled hu
    rw [pure_bind, pure_bind, hFG v (.inr rfl)]

theorem later (h : Supplies classes ctx target u place a) {v : Value} (hv : Yields u a v) :
    Supplies classes ctx target u.later place (pure v) := by
  refine ⟨fun _ => ⟨v, rfl⟩, fun hlater => ?_⟩
  rcases hv with rfl | rfl
  · exact absurd rfl hlater
  · cases u with
    | free => exact h.meaning nofun
    | once => exact absurd rfl hlater
    | never => exact absurd rfl hlater

theorem place_of_meaning (h : Supplies classes ctx target u place a) (hu : u ≠ .never)
    {run : Run σ EvalError Value}
    (hrun : (place.meaning classes ctx target >>= Code.value?) = some run) : run = a :=
  h.meaning hu run (Code.value?_eq_some.1 hrun)

/-- A fragment without the place. -/
theorem unread (h : Supplies classes ctx target u place a) (hu : u ≠ .once)
    {b : Run σ EvalError Value} (hb : Performs classes ctx target f b) :
    Performs classes ctx target f (a >>= fun _ => b) := by
  obtain ⟨v, rfl⟩ := h.settled hu
  rw [pure_bind]
  exact hb

/-- A step of navigation from the place. -/
theorem step (h : Supplies classes ctx target u place a) (hu : u ≠ .never) (f : Fragment)
    (hf : f ≠ .blank) {F : Value → Run σ EvalError Value}
    (hmeaning : f.meaning classes ctx target =
      (place.meaning classes ctx target >>= Code.value?) >>= fun here =>
        some (.value (here >>= F))) :
    Performs classes ctx target f (a >>= F) := by
  refine ⟨hf, fun code hcode => ?_⟩
  rw [hmeaning] at hcode
  obtain ⟨here, hhere, hreturn⟩ := Option.bind_eq_some_iff.1 hcode
  cases hreturn
  rw [Code.run, h.place_of_meaning hu hhere]

theorem index (h : Supplies classes ctx target u place a) (hu : u ≠ .never) {key : Fragment}
    {b : Run σ EvalError Value} (hkey : Performs classes ctx target key b) :
    Performs classes ctx target (.index place key)
      (a >>= fun here => b >>= fun k => Navigation.getIndex classes ctx here k) := by
  refine ⟨nofun, fun code hcode => ?_⟩
  obtain ⟨here, hhere, hcode⟩ := Option.bind_eq_some_iff.1 hcode
  obtain ⟨k, hk, hreturn⟩ := Option.bind_eq_some_iff.1 hcode
  cases hreturn
  rw [Code.run, h.place_of_meaning hu hhere, hkey.value hk]

theorem call (h : Supplies classes ctx target u place a) (hu : u ≠ .never) {name : String}
    {args : List Fragment} {values : Run σ EvalError (List Value)}
    (hargs : ∀ run, Fragment.meanings classes ctx target args = some run → run = values) :
    Performs classes ctx target (.call place name args)
      (a >>= fun here => values >>= fun vs => Navigation.callMethod classes ctx here name vs) := by
  refine ⟨nofun, fun code hcode => ?_⟩
  obtain ⟨here, hhere, hcode⟩ := Option.bind_eq_some_iff.1 hcode
  obtain ⟨vs, hvs, hreturn⟩ := Option.bind_eq_some_iff.1 hcode
  cases hreturn
  rw [Code.run, h.place_of_meaning hu hhere, hargs vs hvs]

theorem compare (h : Supplies classes ctx target u place a) (op : Comparison)
    {left right : Fragment} {F G : Value → Run σ EvalError Value}
    (hleft : Performs classes ctx target left (a >>= F))
    (hright : ∀ v, Yields u a v → Performs classes ctx target right (G v)) :
    Performs classes ctx target (if op.apply true then .equal left right else .differ left right)
      (a >>= fun here => F here >>= fun l => G here >>= fun r =>
        pure (.boolean (op.apply (l.equals r)))) := by
  have hrun {l r : Run σ EvalError Value}
      (hl : (left.meaning classes ctx target >>= Code.value?) = some l)
      (hr : (right.meaning classes ctx target >>= Code.value?) = some r) :
      (l >>= fun x => r >>= fun y => pure (Value.boolean (op.apply (x.equals y)))) =
        a >>= fun here => F here >>= fun x => G here >>= fun y =>
          pure (Value.boolean (op.apply (x.equals y))) := by
    rw [hleft.value hl, bind_assoc]
    refine h.bind_congr fun v hv => ?_
    rw [(hright v hv).value hr]
  cases op with
  | equal =>
    refine ⟨nofun, fun code hcode => ?_⟩
    obtain ⟨l, hl, hcode⟩ := Option.bind_eq_some_iff.1 hcode
    obtain ⟨r, hr, hreturn⟩ := Option.bind_eq_some_iff.1 hcode
    cases hreturn
    simp only [Code.run, bind_assoc, pure_bind]
    exact hrun hl hr
  | notEqual =>
    refine ⟨nofun, fun code hcode => ?_⟩
    obtain ⟨l, hl, hcode⟩ := Option.bind_eq_some_iff.1 hcode
    obtain ⟨r, hr, hreturn⟩ := Option.bind_eq_some_iff.1 hcode
    cases hreturn
    simp only [Code.run, bind_assoc, pure_bind]
    exact hrun hl hr

theorem guard (h : Supplies classes ctx target u place a) (op : Connective)
    {first rest : Fragment} {F : Value → Run σ EvalError Value}
    {G : Value → Value → Run σ EvalError Value}
    (hfirst : Performs classes ctx target first (a >>= F))
    (hrest : ∀ v, Yields u a v → ∀ w, Performs classes ctx target rest (G w v)) :
    Performs classes ctx target (.guard op first rest)
      (a >>= fun here => F here >>= fun w =>
        if op.stopsAt w.truthy then pure w else G w here) := by
  refine ⟨nofun, fun code hcode => ?_⟩
  obtain ⟨run, hrun, hcode⟩ := Option.bind_eq_some_iff.1 hcode
  obtain ⟨run', hrun', hreturn⟩ := Option.bind_eq_some_iff.1 hcode
  cases hreturn
  rw [Code.run, hfirst.value hrun, bind_assoc]
  refine h.bind_congr fun v hv => congrArg (F v >>= ·) (funext fun w => ?_)
  rw [(hrest v hv w).value hrun']

end Supplies

/-- The nested blocks of a connective, for operands that are each performed. -/
theorem performs_guards (op : Connective) {v : Value} {operands : List Expr}
    {fragments : List Fragment}
    (h : List.Forall₂ (fun e f => Performs classes ctx target f (e.evaluate classes ctx v))
      operands fragments) (hne : operands ≠ []) (last : Value) :
    Performs classes ctx target (.guards op fragments)
      (Expr.evaluateOperands classes ctx op operands last v) := by
  induction h generalizing last with
  | nil => exact absurd rfl hne
  | cons hfirst hrest ih =>
    cases hrest with
    | nil =>
      simp only [Expr.evaluateOperands, ite_self, bind_pure]
      exact hfirst
    | cons hnext htail =>
      have hplace : Supplies classes ctx target .never .blank (pure v) :=
        ⟨fun _ => ⟨v, rfl⟩, fun hu => absurd rfl hu⟩
      have hguard := hplace.guard op (F := fun _ => _) (G := fun w _ => _) hfirst
        fun _ _ w => ih (List.cons_ne_nil _ _) w
      exact hguard

/-- The first operand has the place, and the others what is left to them. -/
theorem Supplies.guards (h : Supplies classes ctx target u place a) (op : Connective)
    {first : Expr} {rest : List Expr} {fragment : Fragment} {fragments : List Fragment}
    (hfirst : Performs classes ctx target fragment
      (a >>= fun here => first.evaluate classes ctx here))
    (hrest : ∀ {v : Value}, Yields u a v →
      List.Forall₂ (fun e f => Performs classes ctx target f (e.evaluate classes ctx v))
        rest fragments) (last : Value) :
    Performs classes ctx target (.guards op (fragment :: fragments))
      (a >>= fun here => Expr.evaluateOperands classes ctx op (first :: rest) last here) := by
  have hlength : rest.length = fragments.length := by
    obtain ⟨v, hv⟩ := h.exists_yields
    exact (hrest hv).length_eq
  cases rest with
  | nil =>
    rw [List.eq_nil_of_length_eq_zero hlength.symm]
    simp only [Expr.evaluateOperands, ite_self, bind_pure]
    exact hfirst
  | cons second others =>
    cases fragments with
    | nil => cases hlength
    | cons next fragments =>
      exact h.guard op hfirst fun v hv w =>
        performs_guards op (hrest hv) (List.cons_ne_nil _ _) w

/-- The arguments of a call, each of which is performed. -/
theorem meanings_of_performs {args : List Expr} {fs : List Fragment}
    (h : List.Forall₂ (fun e f => Performs classes ctx target f (e.evaluate classes ctx ctx.root))
      args fs) {run : Run σ EvalError (List Value)}
    (hrun : Fragment.meanings classes ctx target fs = some run) :
    run = Expr.evaluateArgs classes ctx args := by
  induction h generalizing run with
  | nil =>
    cases hrun
    rfl
  | cons hfirst hrest ih =>
    obtain ⟨first, hfirstRun, hrun⟩ := Option.bind_eq_some_iff.1 hrun
    obtain ⟨others, hothers, hreturn⟩ := Option.bind_eq_some_iff.1 hrun
    cases hreturn
    rw [hfirst.value hfirstRun, Expr.evaluateArgs, ih hothers]

/-! ## Simulation -/

namespace Expr

mutual
/-- Without variables and navigation an expression is only computed. -/
theorem evaluate_of_navigations : ∀ e : Expr, e.navigations = 0 → ∀ here : Value,
    ∃ v, e.evaluate classes ctx here = pure v
  | const literal, _, _ => ⟨literal.toValue, rfl⟩
  | root, _, _ => ⟨ctx.root, rfl⟩
  | source, _, here => ⟨here, rfl⟩
  | chain links, h, here => evaluateLinks_of_navigations links h here
  | not operand, h, here => by
    obtain ⟨v, hv⟩ := evaluate_of_navigations operand h here
    refine ⟨.boolean !v.truthy, ?_⟩
    rw [evaluate, hv, pure_bind]
  | logical op operands, h, here => evaluateOperands_of_navigations op operands h _ here
  | compare op left right, h, here => by
    obtain ⟨hleft, hright⟩ := Nat.add_eq_zero_iff.1 h
    obtain ⟨l, hl⟩ := evaluate_of_navigations left hleft here
    obtain ⟨r, hr⟩ := evaluate_of_navigations right hright here
    refine ⟨.boolean (op.apply (l.equals r)), ?_⟩
    rw [evaluate, hl, pure_bind, hr, pure_bind]
termination_by structural e => e

theorem evaluateLinks_of_navigations : ∀ links : List Expr, navigationsAll links = 0 →
    ∀ here : Value, ∃ v, evaluateLinks classes ctx links here = pure v
  | [], _, here => ⟨here, rfl⟩
  | link :: links, h, here => by
    obtain ⟨hlink, hlinks⟩ := Nat.add_eq_zero_iff.1 h
    obtain ⟨v, hv⟩ := evaluate_of_navigations link hlink here
    rw [evaluateLinks, hv, pure_bind]
    exact evaluateLinks_of_navigations links hlinks v
termination_by structural links => links

theorem evaluateOperands_of_navigations (op : Connective) : ∀ operands : List Expr,
    navigationsAll operands = 0 → ∀ last here : Value,
      ∃ v, evaluateOperands classes ctx op operands last here = pure v
  | [], _, last, _ => ⟨last, rfl⟩
  | operand :: operands, h, _, here => by
    obtain ⟨hoperand, hoperands⟩ := Nat.add_eq_zero_iff.1 h
    obtain ⟨v, hv⟩ := evaluate_of_navigations operand hoperand here
    rw [evaluateOperands, hv, pure_bind]
    split
    · exact ⟨v, rfl⟩
    · exact evaluateOperands_of_navigations op operands hoperands v here
termination_by structural operands => operands
end

/-- The place of an operand that is rendered from the root. -/
theorem supplies_rootPlace :
    Supplies classes ctx target .free .rootPlace (pure ctx.root) where
  settled _ := ⟨ctx.root, rfl⟩
  meaning _ run h := by
    cases h
    rfl

/-- The place of an expression that is rendered on its own. -/
theorem supplies_targetPlace :
    Supplies classes ctx target .free .targetPlace (pure target) where
  settled _ := ⟨target, rfl⟩
  meaning _ run h := by
    cases h
    rfl

/-- The fragment of a link, as the place of the links after it. -/
theorem supplies_group {link : Expr}
    (hplace : Supplies classes ctx target u place a)
    (h : Performs classes ctx target f (a >>= fun here => link.evaluate classes ctx here)) :
    Supplies classes ctx target (u.through link) (.group f)
      (a >>= fun here => link.evaluate classes ctx here) := by
  refine ⟨fun hthrough => ?_, fun _ run hrun => ?_⟩
  · by_cases hfree : u ≠ .once ∧ link.navigations = 0
    · obtain ⟨v, rfl⟩ := hplace.settled hfree.1
      rw [pure_bind]
      exact evaluate_of_navigations link hfree.2 v
    · exact absurd (if_neg hfree) hthrough
  · obtain ⟨here, hhere, hreturn⟩ := Option.bind_eq_some_iff.1 hrun
    cases hreturn
    exact h.value hhere

mutual
/-- The simulation. It follows the usage of the place: the parts of a fragment share it out among
themselves, and a link passes on what it comes to. -/
theorem performs_of_renders : ∀ {e : Expr} {place f : Fragment}, Renders e place f →
    ∀ (u : Usage) {a : Run σ EvalError Value}, e.fits u = true →
      Supplies classes ctx target u place a →
        Performs classes ctx target f (a >>= fun here => e.evaluate classes ctx here)
  | _, _, _, .const literal _, u, a, he, hplace => by
    simp only [fits, decide_eq_true_eq] at he
    have hliteral : Performs classes ctx target (.ofLiteral literal) (pure literal.toValue) := by
      cases literal <;> exact ⟨nofun, by rintro _ ⟨⟩; rfl⟩
    exact hplace.unread he hliteral
  | _, _, _, .root _, u, a, he, hplace => by
    simp only [fits, decide_eq_true_eq] at he
    exact hplace.unread he ⟨nofun, by rintro _ ⟨⟩; rfl⟩
  | _, _, _, .source place, u, a, he, hplace => by
    simp only [fits, decide_eq_true_eq] at he
    have hmeaning : (Fragment.clone place).meaning classes ctx target =
        (place.meaning classes ctx target >>= Code.value?) >>= fun here =>
          some (.value (here >>= pure)) := by
      simp only [Fragment.meaning, bind_pure]
      rfl
    exact hplace.step he (.clone place) nofun hmeaning
  | _, _, _, .var name _, u, a, he, hplace => by
    simp only [fits, decide_eq_true_eq] at he
    exact hplace.unread he ⟨nofun, by rintro _ ⟨⟩; rfl⟩
  | _, _, _, .property name place, u, a, he, hplace => by
    simp only [fits, decide_eq_true_eq] at he
    exact hplace.step he (.property place name) nofun rfl
  | _, _, _, .index hkey hint _, u, a, he, hplace => by
    simp only [fits, Bool.and_eq_true_iff, decide_eq_true_eq] at he
    have hone := performs_of_renders hkey .free he.2 supplies_rootPlace
    rw [pure_bind] at hone
    exact hplace.index he.1 (hone.asValue hint)
  | _, _, _, .subscript s place, u, a, he, hplace => by
    simp only [fits, decide_eq_true_eq] at he
    exact hplace.step he (.subscript place s) nofun rfl
  | method _ args, _, _, .method name hargs _, u, a, he, hplace => by
    simp only [fits, Bool.and_eq_true_iff, decide_eq_true_eq] at he
    have hall := performs_of_rendersAll hargs .free he.2 supplies_rootPlace
    exact hplace.call he.1 fun run hrun => meanings_of_performs hall hrun
  | _, _, _, .empty _, _, _, he, _ => absurd he Bool.false_ne_true
  | _, _, _, .chain hlinks, u, a, he, hplace => performs_of_rendersLinks hlinks u he hplace
  | _, _, _, .not hoperand, u, a, he, hplace => by
    have hone := performs_of_renders hoperand u he hplace
    have hnot := hone.not
    rw [bind_assoc] at hnot
    rw [Fragment.orNull_of_ne_blank hone.ne_blank]
    exact hnot
  | _, _, _, .logical op (.nil _), u, a, he, hplace => by
    have hu : u ≠ .once := by simpa only [fits, operandsFit, decide_eq_true_eq] using he
    exact hplace.unread hu ⟨nofun, by rintro _ ⟨⟩; rfl⟩
  | logical _ (first :: rest), _, _, .logical op (.cons h hint hs), u, a, he, hplace => by
    have hfits : (first.fits u && allFit rest u.later) = true := he
    rw [Bool.and_eq_true_iff] at hfits
    have hfirst := (performs_of_renders h u hfits.1 hplace).asValue hint
    exact hplace.guards op hfirst
      (fun hv => performs_of_rendersAll hs u.later hfits.2 (hplace.later hv)) _
  | _, _, _, .compare op hleft leftHint hright rightHint, u, a, he, hplace => by
    rw [fits, Bool.and_eq_true_iff] at he
    have hl := (performs_of_renders hleft u he.1 hplace).asValue leftHint
    refine hplace.compare op hl fun v hv => ?_
    have hr := performs_of_renders hright u.later he.2 (hplace.later hv)
    rw [pure_bind] at hr
    exact hr.asValue rightHint

theorem performs_of_rendersAll : ∀ {es : List Expr} {place : Fragment} {fs : List Fragment},
    RendersAll es place fs → ∀ (u : Usage) {v : Value}, allFit es u = true →
      Supplies classes ctx target u place (pure v) →
        List.Forall₂ (fun e f => Performs classes ctx target f (e.evaluate classes ctx v)) es fs
  | _, _, _, .nil _, _, _, _, _ => .nil
  | _, _, _, .cons h hint hs, u, v, he, hplace => by
    rw [allFit, Bool.and_eq_true_iff] at he
    have hone := performs_of_renders h u he.1 hplace
    rw [pure_bind] at hone
    exact .cons (hone.asValue hint) (performs_of_rendersAll hs u he.2 hplace)

theorem performs_of_rendersLinks : ∀ {links : List Expr} {place f : Fragment},
    RendersLinks links place f → ∀ (u : Usage) {a : Run σ EvalError Value},
      linksFit links u = true → Supplies classes ctx target u place a →
        Performs classes ctx target f (a >>= fun here => evaluateLinks classes ctx links here)
  | _, _, _, .last h, u, a, he, hplace => by
    simp only [evaluateLinks, bind_pure]
    exact performs_of_renders h u he hplace
  | link :: _ :: _, _, _, .link h hint hlinks, u, a, he, hplace => by
    rw [linksFit, Bool.and_eq_true_iff] at he
    have hone := (performs_of_renders h u he.1 hplace).asValue hint
    have hrest := performs_of_rendersLinks hlinks (u.through link) he.2 (supplies_group hplace hone)
    rw [bind_assoc] at hrest
    exact hrest
end

/-- The code of a direct expression does what its evaluation does. -/
theorem performs_of_isDirect {e : Expr} (he : e.isDirect = true)
    (h : Renders e .targetPlace f) :
    Performs classes ctx target f (e.evaluate classes ctx target) := by
  have hplace : Supplies classes ctx target .free .targetPlace (pure target) := supplies_targetPlace
  have hperforms := performs_of_renders h .free he hplace
  rw [pure_bind] at hperforms
  exact hperforms

end Expr
end
end ObjectGraph
