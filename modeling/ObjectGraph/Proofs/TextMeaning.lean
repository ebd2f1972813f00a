import ObjectGraph.Proofs.FragmentMeaning
import ObjectGraph.Proofs.FragmentReading
import ObjectGraph.Proofs.FragmentShape
import ObjectGraph.Proofs.SourceMeaning

/-!
# The text of a fragment means what the fragment does

Read from its text, a fragment has the program that the fragment itself stands for. One name stands
for all doubles that are not numbers, so of these only the one of that name comes back.
-/
namespace ObjectGraph

variable {σ : Type}

/-- The double comes back from its text: it is a number, or the one that its name stands for. -/
def Binary64.isNameable (x : Binary64) : Bool := !x.isNaN || x = nan

/-- The program as a part of a larger one, whose variables it does not read. -/
def Code.typed : Code σ → Typed σ
  | value run => .value fun _ => run
  | truth run => .truth fun _ => run

/-- An infinite double has one of two patterns. -/
theorem Binary64.eq_infinity {x : Binary64} (h : x.isInfinite = true) :
    x = if x.negative then infinity.neg else infinity := by
  obtain ⟨hfield, hfraction⟩ : x.exponentField = 2047 ∧ x.fraction = 0 := by
    simpa [isInfinite] using h
  obtain ⟨bits⟩ := x
  have hlt := bits.toNat_lt
  replace hfield : bits.toNat / 0x10000000000000 % 2048 = 2047 := hfield
  replace hfraction : bits.toNat % 0x10000000000000 = 0 := hfraction
  split_ifs with hnegative
  · have hbits : bits = 0xfff0000000000000 := by
      have hsign : 0x8000000000000000 ≤ bits.toNat := of_decide_eq_true hnegative
      refine UInt64.toNat_inj.1 ?_
      change bits.toNat = 0xfff0000000000000
      omega
    rw [hbits]
    rfl
  · have hbits : bits = 0x7ff0000000000000 := by
      have hsign : ¬ 0x8000000000000000 ≤ bits.toNat := fun h => hnegative (decide_eq_true h)
      refine UInt64.toNat_inj.1 ?_
      change bits.toNat = 0x7ff0000000000000
      omega
    rw [hbits]
    rfl

namespace Source

variable {classes : Registry σ} {ctx : Context σ} {target : Value} {scope : List String}

/-- A guard introduces no other name. -/
def GuardScope (scope : List String) : Prop := ∀ name ∈ scope, name = "v"

theorem GuardScope.cons (h : GuardScope scope) : GuardScope ("v" :: scope) :=
  List.forall_mem_cons.2 ⟨rfl, h⟩

theorem typed?_path (hscope : GuardScope scope) {name : String} (hname : name ≠ "v") :
    (path name).typed? classes ctx target scope = (constants ctx target).lookup name :=
  if_neg fun hmem => hname (hscope name hmem)

theorem typed?_context (hscope : GuardScope scope) :
    (path "ctx").typed? classes ctx target scope = some .context :=
  typed?_path hscope (by decide)

theorem typed?_borrow {e : Source} {t : Typed σ}
    (h : e.typed? classes ctx target scope = some t) :
    (borrow e).typed? classes ctx target scope = some (.borrowed t) := by
  rw [typed?, h]
  rfl

theorem typed?_attempt {e : Source} {run : Locals → Run σ EvalError Value}
    (h : e.typed? classes ctx target scope = some (.result run)) :
    (attempt e).typed? classes ctx target scope = some (.value run) := by
  rw [typed?, h]
  rfl

theorem typed?_not {e : Source} {test : Locals → Run σ EvalError Bool}
    (h : e.typed? classes ctx target scope = some (.truth test)) :
    (not e).typed? classes ctx target scope =
      some (.truth fun locals => test locals >>= fun b => pure !b) := by
  rw [typed?, h]
  rfl

theorem typed?_call {function : String} {callee : Callee} {args : List Source}
    {ts : List (Typed σ)} {t : Typed σ} (hcallee : Callee.paths.lookup function = some callee)
    (hargs : typedAll? classes ctx target scope args = some ts)
    (happly : callee.apply classes ctx ts = some t) :
    (call function args).typed? classes ctx target scope = some t := by
  rw [typed?, hcallee, hargs]
  exact happly

theorem typedAll?_nil : typedAll? classes ctx target scope [] = some [] := rfl

theorem typedAll?_cons {e : Source} {es : List Source} {t : Typed σ} {ts : List (Typed σ)}
    (h : e.typed? classes ctx target scope = some t)
    (hs : typedAll? classes ctx target scope es = some ts) :
    typedAll? classes ctx target scope (e :: es) = some (t :: ts) := by
  rw [typedAll?, h, hs]
  rfl

/-- A function that reads from a borrowed place gets the context first, and may fail. -/
theorem typed?_reading (hscope : GuardScope scope) {function : String} {callee : Callee}
    {place : Source} {others : List Source} {t : Typed σ} {ts : List (Typed σ)}
    {run : Locals → Run σ EvalError Value} (hcallee : Callee.paths.lookup function = some callee)
    (hplace : place.typed? classes ctx target scope = some t)
    (hothers : typedAll? classes ctx target scope others = some ts)
    (happly : callee.apply classes ctx (.context :: .borrowed t :: ts) = some (.result run)) :
    (attempt (call function (path "ctx" :: borrow place :: others))).typed? classes ctx target
      scope = some (.value run) := by
  have hargs := typedAll?_cons (typed?_context hscope)
    (typedAll?_cons (typed?_borrow hplace) hothers)
  exact typed?_attempt (typed?_call hcallee hargs happly)

end Source

namespace Fragment

variable {classes : Registry σ} {ctx : Context σ} {target : Value} {scope : List String}

open Source (GuardScope typed?_path typed?_context typed?_borrow typed?_not typed?_call
  typed?_reading typedAll?_nil typedAll?_cons)

theorem typed?_floatSource (hscope : GuardScope scope) {x : Binary64} (hx : x.isNameable = true) :
    (floatSource x).typed? classes ctx target scope = some (.double x) := by
  unfold floatSource
  split_ifs with hfinite
  · rw [Source.typed?]
    exact Typed.ofNumeral?_double hfinite
  · unfold floatText
    split_ifs with hnan hinfinite hnegative
    · have hx' : x = Binary64.nan := by simpa [Binary64.isNameable, hnan] using hx
      rw [typed?_path hscope (by decide), hx']
      rfl
    · rw [typed?_path hscope (by decide), Binary64.eq_infinity hinfinite, if_pos hnegative]
      rfl
    · rw [typed?_path hscope (by decide), Binary64.eq_infinity hinfinite, if_neg hnegative]
      rfl
    · exact absurd (Decimal.isFinite_of_cases hnan hinfinite) hfinite

theorem typed?_subscriptPath (hscope : GuardScope scope) (s : Subscript) :
    (Source.path (subscriptPath s)).typed? classes ctx target scope = some (.subscript s) := by
  cases s <;> exact typed?_path hscope (by decide)

/-- The test of a guard looks at the variable that holds the first operand. -/
theorem typed?_stopSource (op : Connective) :
    (stopSource op).typed? classes ctx target ("v" :: scope) =
      some (.truth fun locals => pure (op.stopsAt (locals "v").truthy)) := by
  have hv : (Source.path "v").typed? classes ctx target ("v" :: scope) =
      some (.value fun locals => pure (locals "v")) := if_pos List.mem_cons_self
  have htruth : (Source.call "::ogel_lang::ops::boolean_value" [.borrow (.path "v")]).typed?
      classes ctx target ("v" :: scope) =
        some (.truth fun locals => pure (locals "v").truthy) := by
    refine typed?_call rfl (typedAll?_cons (typed?_borrow hv) rfl) ?_
    simp only [Callee.apply, Typed.truthiness?, pure_bind]
    rfl
  cases op with
  | and =>
    have hnot := typed?_not htruth
    simp only [pure_bind] at hnot
    exact hnot
  | or => exact htruth

theorem typed?_equals {left right : Source} {l r : Run σ EvalError Value}
    (hleft : left.typed? classes ctx target scope = some (.value fun _ => l))
    (hright : right.typed? classes ctx target scope = some (.value fun _ => r)) :
    (Source.call "::ogel_lang::ops::equals" [.borrow left, .borrow right]).typed? classes ctx target
      scope = some (.truth fun _ => l >>= fun x => r >>= fun y => pure (x.equals y)) :=
  typed?_call rfl (typedAll?_cons (typed?_borrow hleft)
    (typedAll?_cons (typed?_borrow hright) typedAll?_nil)) rfl

/-- A guard binds the variable to what its first operand comes to. -/
theorem typed?_guard (op : Connective) {first rest : Source} {run others : Run σ EvalError Value}
    (hfirst : first.typed? classes ctx target scope = some (.value fun _ => run))
    (hrest : rest.typed? classes ctx target ("v" :: scope) = some (.value fun _ => others)) :
    (Source.letIn "v" first (.ite (stopSource op) (.path "v") rest)).typed? classes ctx target
      scope = some (.value fun _ =>
        run >>= fun v => if op.stopsAt v.truthy then pure v else others) := by
  have hv : (Source.path "v").typed? classes ctx target ("v" :: scope) =
      some (.value fun locals => pure (locals "v")) := if_pos List.mem_cons_self
  have hbody : (Source.ite (stopSource op) (.path "v") rest).typed? classes ctx target
      ("v" :: scope) = some (.value fun locals => pure (op.stopsAt (locals "v").truthy) >>=
        fun b => if b then pure (locals "v") else others) := by
    rw [Source.typed?, typed?_stopSource, hv, hrest]
    rfl
  rw [Source.typed?, hfirst, hbody]
  refine congrArg (fun r => some (Typed.value r)) (funext fun locals =>
    congrArg (run >>= ·) (funext fun v => ?_))
  dsimp only
  rw [pure_bind, Function.update_self]

section

variable {f : Fragment} (ih : ∀ {code : Code σ}, f.meaning classes ctx target = some code →
  f.source.typed? classes ctx target scope = some code.typed)

include ih

theorem typed?_of_value {run : Run σ EvalError Value}
    (hrun : (f.meaning classes ctx target >>= Code.value?) = some run) :
    f.source.typed? classes ctx target scope = some (.value fun _ => run) :=
  ih (Code.value?_eq_some.1 hrun)

theorem typed?_of_truth {run : Run σ EvalError Bool}
    (hrun : (f.meaning classes ctx target >>= Code.truth?) = some run) :
    f.source.typed? classes ctx target scope = some (.truth fun _ => run) :=
  ih (Code.truth?_eq_some.1 hrun)

end

/-- What a fragment to read from is, once it is known what it means if it is whole. -/
theorem exists_typed?_origin {place : Fragment} (hscope : GuardScope scope)
    (h : place.isOrigin Binary64.isNameable = true)
    (ih : place.isWhole Binary64.isNameable = true → ∀ {code : Code σ},
      place.meaning classes ctx target = some code →
        place.source.typed? classes ctx target scope = some code.typed)
    {run : Run σ EvalError Value}
    (hrun : (place.meaning classes ctx target >>= Code.value?) = some run) :
    ∃ t, place.source.typed? classes ctx target scope = some t ∧
      (Typed.borrowed t).reference? = some (fun _ => run) ∧
      t.copied? = some (.value fun _ => run) := by
  rcases Bool.or_eq_true_iff.1 h with hbinding | hwhole
  · cases place with
    | rootPlace =>
      cases hrun
      exact ⟨_, typed?_path hscope (by decide), rfl, rfl⟩
    | targetPlace =>
      cases hrun
      exact ⟨_, typed?_path hscope (by decide), rfl, rfl⟩
    | _ => cases hbinding
  · exact ⟨_, typed?_of_value (ih hwhole) hrun, rfl, rfl⟩

mutual
/-- The expression of a fragment has the type and the program of the fragment, wherever it stands
among guards. -/
theorem typed?_source : ∀ (f : Fragment), f.isWhole Binary64.isNameable = true →
    ∀ {scope : List String}, GuardScope scope → ∀ {code : Code σ},
      f.meaning classes ctx target = some code →
        f.source.typed? classes ctx target scope = some code.typed
  | blank, h, _, _, _, _ => nomatch h
  | rootPlace, h, _, _, _, _ => nomatch h
  | targetPlace, h, _, _, _, _ => nomatch h
  | nullValue, _, _, hscope, _, hcode => by
    cases hcode
    exact typed?_path hscope (by decide)
  | truth b, _, _, hscope, _, hcode => by
    cases hcode
    cases b <;> exact typed?_path hscope (by decide)
  | integer n, _, scope, _, _, hcode => by
    cases hcode
    have hnumeral : (Source.numeral (toString n.toInt).toList).typed? classes ctx target scope =
        some (.integer n) := by
      rw [Source.typed?]
      exact Typed.ofNumeral?_integer n
    exact typed?_call rfl (typedAll?_cons hnumeral rfl) rfl
  | float x, h, _, hscope, _, hcode => by
    cases hcode
    exact typed?_call rfl (typedAll?_cons (typed?_floatSource hscope h) rfl) rfl
  | string s, _, _, _, _, hcode => by
    cases hcode
    rfl
  | group f, h, _, hscope, _, hcode => by
    obtain ⟨run, hrun, hreturn⟩ := Option.bind_eq_some_iff.1 hcode
    cases hreturn
    exact typed?_of_value (typed?_source f h hscope) hrun
  | clone place, h, _, hscope, _, hcode => by
    obtain ⟨run, hrun, hreturn⟩ := Option.bind_eq_some_iff.1 hcode
    cases hreturn
    obtain ⟨t, ht, -, hcopied⟩ := exists_typed?_origin hscope h
      (fun hwhole _ hmeaning => typed?_source place hwhole hscope hmeaning) hrun
    rw [source, Source.typed?, ht]
    exact hcopied
  | var name, _, _, hscope, _, hcode => by
    cases hcode
    exact typed?_call rfl (typedAll?_cons (typed?_context hscope) (typedAll?_cons rfl rfl)) rfl
  | property place name, h, _, hscope, _, hcode => by
    obtain ⟨here, hhere, hreturn⟩ := Option.bind_eq_some_iff.1 hcode
    cases hreturn
    obtain ⟨t, ht, href, -⟩ := exists_typed?_origin hscope h
      (fun hwhole _ hmeaning => typed?_source place hwhole hscope hmeaning) hhere
    refine typed?_reading hscope rfl ht (typedAll?_cons rfl typedAll?_nil) ?_
    simp only [Callee.apply, href]
    rfl
  | index place key, h, _, hscope, _, hcode => by
    obtain ⟨hplace, hkey⟩ := Bool.and_eq_true_iff.1 h
    obtain ⟨here, hhere, hcode⟩ := Option.bind_eq_some_iff.1 hcode
    obtain ⟨k, hk, hreturn⟩ := Option.bind_eq_some_iff.1 hcode
    cases hreturn
    obtain ⟨t, ht, href, -⟩ := exists_typed?_origin hscope hplace
      (fun hwhole _ hmeaning => typed?_source place hwhole hscope hmeaning) hhere
    have htKey := typed?_of_value (typed?_source key hkey hscope) hk
    refine typed?_reading hscope rfl ht (typedAll?_cons (typed?_borrow htKey) typedAll?_nil) ?_
    simp only [Callee.apply, href]
    rfl
  | subscript place s, h, _, hscope, _, hcode => by
    obtain ⟨here, hhere, hreturn⟩ := Option.bind_eq_some_iff.1 hcode
    cases hreturn
    obtain ⟨t, ht, href, -⟩ := exists_typed?_origin hscope h
      (fun hwhole _ hmeaning => typed?_source place hwhole hscope hmeaning) hhere
    refine typed?_reading hscope rfl ht
      (typedAll?_cons (typed?_subscriptPath hscope s) typedAll?_nil) ?_
    simp only [Callee.apply, href]
    rfl
  | call place name args, h, scope, hscope, _, hcode => by
    obtain ⟨hplace, hwhole⟩ := Bool.and_eq_true_iff.1 h
    obtain ⟨here, hhere, hcode⟩ := Option.bind_eq_some_iff.1 hcode
    obtain ⟨run, hrun, hreturn⟩ := Option.bind_eq_some_iff.1 hcode
    cases hreturn
    obtain ⟨t, ht, href, -⟩ := exists_typed?_origin hscope hplace
      (fun hwhole _ hmeaning => typed?_source place hwhole hscope hmeaning) hhere
    obtain ⟨ts, hts, hvalues⟩ := typedAll?_sourceAll args hwhole hscope hrun
    have hlist : (Source.list (sourceAll args)).typed? classes ctx target scope =
        some (.values fun _ => run) := by
      rw [Source.typed?, hts, Option.bind_eq_bind, Option.bind_some, hvalues]
      rfl
    refine typed?_reading hscope rfl ht
      (typedAll?_cons rfl (typedAll?_cons (typed?_borrow hlist) typedAll?_nil)) ?_
    simp only [Callee.apply, href]
    rfl
  | not operand, h, _, hscope, _, hcode => by
    obtain ⟨code, hmeaning, hreturn⟩ := Option.bind_eq_some_iff.1 hcode
    cases hreturn
    have hoperand := typed?_source operand h hscope hmeaning
    refine typed?_not (typed?_call rfl (typedAll?_cons (typed?_borrow hoperand) rfl) ?_)
    cases code <;> rfl
  | guard op first rest, h, scope, hscope, _, hcode => by
    obtain ⟨hfirst, hrest⟩ := Bool.and_eq_true_iff.1 h
    obtain ⟨run, hrun, hcode⟩ := Option.bind_eq_some_iff.1 hcode
    obtain ⟨others, hothers, hreturn⟩ := Option.bind_eq_some_iff.1 hcode
    cases hreturn
    have htFirst := typed?_of_value (typed?_source first hfirst hscope) hrun
    have htRest := typed?_of_value (typed?_source rest hrest hscope.cons) hothers
    exact typed?_guard op htFirst htRest
  | equal left right, h, _, hscope, _, hcode => by
    obtain ⟨hleft, hright⟩ := Bool.and_eq_true_iff.1 h
    obtain ⟨l, hl, hcode⟩ := Option.bind_eq_some_iff.1 hcode
    obtain ⟨r, hr, hreturn⟩ := Option.bind_eq_some_iff.1 hcode
    cases hreturn
    have htLeft := typed?_of_value (typed?_source left hleft hscope) hl
    have htRight := typed?_of_value (typed?_source right hright hscope) hr
    exact typed?_equals htLeft htRight
  | differ left right, h, _, hscope, _, hcode => by
    obtain ⟨hleft, hright⟩ := Bool.and_eq_true_iff.1 h
    obtain ⟨l, hl, hcode⟩ := Option.bind_eq_some_iff.1 hcode
    obtain ⟨r, hr, hreturn⟩ := Option.bind_eq_some_iff.1 hcode
    cases hreturn
    have htLeft := typed?_of_value (typed?_source left hleft hscope) hl
    have htRight := typed?_of_value (typed?_source right hright hscope) hr
    have hequals := typed?_equals htLeft htRight
    have hnot := typed?_not hequals
    simp only [bind_assoc, pure_bind] at hnot
    exact hnot
  | boxed f, h, _, hscope, _, hcode => by
    obtain ⟨b, hb, hreturn⟩ := Option.bind_eq_some_iff.1 hcode
    cases hreturn
    have htruth := typed?_of_truth (typed?_source f h hscope) hb
    exact typed?_call rfl (typedAll?_cons htruth rfl) rfl
termination_by structural f => f

theorem typedAll?_sourceAll : ∀ (fs : List Fragment), allWhole Binary64.isNameable fs = true →
    ∀ {scope : List String}, GuardScope scope → ∀ {run : Run σ EvalError (List Value)},
      meanings classes ctx target fs = some run →
        ∃ ts, Source.typedAll? classes ctx target scope (sourceAll fs) = some ts ∧
          Typed.values? ts = some fun _ => run
  | [], _, _, _, _, hrun => by
    cases hrun
    exact ⟨[], rfl, rfl⟩
  | f :: fs, h, _, hscope, _, hrun => by
    obtain ⟨hfirst, hrest⟩ := Bool.and_eq_true_iff.1 h
    obtain ⟨first, hfirstRun, hrun⟩ := Option.bind_eq_some_iff.1 hrun
    obtain ⟨others, hothers, hreturn⟩ := Option.bind_eq_some_iff.1 hrun
    cases hreturn
    obtain ⟨ts, hts, hvalues⟩ := typedAll?_sourceAll fs hrest hscope hothers
    have ht := typed?_of_value (typed?_source f hfirst hscope) hfirstRun
    refine ⟨_, typedAll?_cons ht hts, ?_⟩
    rw [Typed.values?, hvalues]
    rfl
termination_by structural fs => fs
end

end Fragment
end ObjectGraph
