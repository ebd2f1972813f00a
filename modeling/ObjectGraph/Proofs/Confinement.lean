import ObjectGraph.Proofs.Effect
import ObjectGraph.Proofs.Gate

/-!
# Confinement by the access policy

The code of members that a policy denies is never run, and nothing of it can be observed: two
hosts whose classes differ in that code only give the same results, the same errors and the same
trail, in which no event reaches a denied member.
-/
namespace ObjectGraph

variable {σ : Type}

/-! ## Classes that differ in denied code -/

/-- The same field, but for its code when the policy denies it. -/
structure Field.Alike (p : VisibilityPolicy) (f f' : Field σ) : Prop where
  visibility : f'.visibility = f.visibility
  code : p.permits f.visibility = true → f' = f

structure Method.Alike (p : VisibilityPolicy) (m m' : Method σ) : Prop where
  visibility : m'.visibility = m.visibility
  arity : m'.arity = m.arity
  code : p.permits m.visibility = true → m' = m

structure Indexer.Alike (p : VisibilityPolicy) (ix ix' : Indexer σ) : Prop where
  visibility : ix'.visibility = ix.visibility
  code : p.permits ix.visibility = true → ix' = ix

/-- The same members under the same names, but for the code of denied ones. -/
structure ClassTable.Alike (p : VisibilityPolicy) (table table' : ClassTable σ) : Prop where
  fields (name : String) : Option.Rel (Field.Alike p) (table.field? name) (table'.field? name)
  methods (name : String) : Option.Rel (Method.Alike p) (table.method? name) (table'.method? name)
  indexer : Option.Rel (Indexer.Alike p) table.indexer table'.indexer

/-- The same resolution of a property, but for the code of a denied member. -/
structure Property.Alike (p : VisibilityPolicy) (q q' : Property σ) : Prop where
  member (cls : ClassRef) : q'.member cls = q.member cls
  code (cls : ClassRef) : p.permits (q.member cls).visibility = true → q' = q

/-- Related options are both there or both missing. -/
theorem bothOrNeither {α : Type} {r : α → α → Prop} {x x' : Option α} (h : Option.Rel r x x') :
    x = none ∧ x' = none ∨ ∃ a a', x = some a ∧ x' = some a' ∧ r a a' := by
  cases h with
  | none => exact .inl ⟨rfl, rfl⟩
  | some h => exact .inr ⟨_, _, rfl, rfl, h⟩

namespace ClassTable.Alike

variable {p : VisibilityPolicy} {table table' : ClassTable σ}

theorem getter? (h : table.Alike p table') (name : String) :
    Option.Rel (Property.Alike p) (table.getter? name) (table'.getter? name) := by
  obtain ⟨hm, hm'⟩ | ⟨m, m', hm, hm', hlike⟩ := bothOrNeither (h.methods name)
  · simp only [ClassTable.getter?, hm, hm']
    exact .none
  · simp only [ClassTable.getter?, hm, hm', Option.bind_some, hlike.arity]
    split
    · refine .some ⟨fun cls => ?_, fun cls hcls => ?_⟩
      · simp only [Property.member, Method.member, hlike.visibility]
      · rw [hlike.code hcls]
    · exact .none

theorem or {a a' b b' : Option (Property σ)} (ha : Option.Rel (Property.Alike p) a a')
    (hb : Option.Rel (Property.Alike p) b b') :
    Option.Rel (Property.Alike p) (a.or b) (a'.or b') := by
  cases ha with
  | none => simpa using hb
  | some h => exact .some h

theorem property? (h : table.Alike p table') (name : String) :
    Option.Rel (Property.Alike p) (table.property? name) (table'.property? name) := by
  obtain ⟨hf, hf'⟩ | ⟨f, f', hf, hf', hlike⟩ := bothOrNeither (h.fields name)
  · simp only [ClassTable.property?, hf, hf']
    exact or (h.getter? name) (or (h.getter? _) (h.getter? _))
  · simp only [ClassTable.property?, hf, hf']
    refine .some ⟨fun cls => ?_, fun cls hcls => ?_⟩
    · simp only [Property.member, Field.member, hlike.visibility]
    · rw [hlike.code hcls]

theorem setter? (h : table.Alike p table') (name : String) :
    Option.Rel (fun entry entry' => entry'.1 = entry.1 ∧ entry.2.Alike p entry'.2)
      (table.setter? name) (table'.setter? name) := by
  obtain ⟨hm, hm'⟩ | ⟨m, m', hm, hm', hlike⟩ :=
    bothOrNeither (h.methods ("set_" ++ name))
  · simp only [ClassTable.setter?, hm, hm']
    exact .none
  · simp only [ClassTable.setter?, hm, hm', Option.bind_some, hlike.arity]
    split
    · exact .some ⟨rfl, hlike⟩
    · exact .none

end ClassTable.Alike

/-! ## Equal navigation -/

namespace Navigation

variable {p : VisibilityPolicy} {classes classes' : Registry σ} {ctx : Context σ} {α : Type}

/-- At a denied member one attempt is as good as another. -/
theorem reach_of_denied (hctx : ctx.policy = p.toPolicy) (o : ObjectRef) {member : Member}
    (h : p.permits member.visibility = false) (property : String) (attempt attempt' : Attempt σ α) :
    reach ctx o member property attempt = reach ctx o member property attempt' := by
  funext w
  simp only [reach, hctx]
  rw [p.elevated_of_denied ctx.toBindings attempt w h,
    p.elevated_of_denied ctx.toBindings attempt' w h]

/-- Attempts that agree wherever the member is permitted are made alike. -/
theorem reach_congr (hctx : ctx.policy = p.toPolicy) (o : ObjectRef) {member : Member}
    (property : String) {attempt attempt' : Attempt σ α}
    (h : p.permits member.visibility = true → attempt' = attempt) :
    reach ctx o member property attempt = reach ctx o member property attempt' := by
  cases hp : p.permits member.visibility with
  | true => rw [h hp]
  | false => exact reach_of_denied hctx o hp property attempt attempt'

section

variable (h : ∀ cls, (classes cls).Alike p (classes' cls)) (hctx : ctx.policy = p.toPolicy)
include h hctx

theorem readProperty_congr (o : ObjectRef) (name : String) :
    readProperty classes ctx o name = readProperty classes' ctx o name := by
  obtain ⟨hq, hq'⟩ | ⟨q, q', hq, hq', hlike⟩ :=
    bothOrNeither ((h o.cls).property? name)
  · simp only [readProperty, hq, hq']
  · simp only [readProperty, hq, hq', hlike.member]
    exact reach_congr hctx o name fun hp => by rw [hlike.code o.cls hp]

theorem indexOf_congr (o : ObjectRef) (key : Value) :
    indexOf classes ctx (.object o) key = indexOf classes' ctx (.object o) key := by
  obtain ⟨hix, hix'⟩ | ⟨ix, ix', hix, hix', hlike⟩ := bothOrNeither (h o.cls).indexer
  · cases key with
    | string name =>
      simp only [indexOf, hix, hix']
      exact readProperty_congr h hctx o name
    | _ => simp only [indexOf, hix, hix']
  · simp only [indexOf, hix, hix', Indexer.member, hlike.visibility]
    exact reach_congr hctx o indexerName fun hp => by rw [hlike.code hp]

theorem resultOf_congr (o : ObjectRef) (name : String) (args : List Value) :
    resultOf classes ctx (.object o) name args = resultOf classes' ctx (.object o) name args := by
  obtain ⟨hm, hm'⟩ | ⟨m, m', hm, hm', hlike⟩ := bothOrNeither ((h o.cls).methods name)
  · simp only [resultOf, hm, hm']
  · simp only [resultOf, hm, hm', Method.member, hlike.visibility]
    exact reach_congr hctx o name fun hp => by rw [hlike.code hp]

theorem writeProperty_congr (target : Value) (name : String) (value : Value) :
    writeProperty classes ctx target name value = writeProperty classes' ctx target name value := by
  cases target with
  | object o =>
    obtain ⟨hf, hf'⟩ | ⟨f, f', hf, hf', hlike⟩ := bothOrNeither ((h o.cls).fields name)
    · obtain ⟨hm, hm'⟩ | ⟨⟨setter, m⟩, ⟨setter', m'⟩, hm, hm', heq, hlike⟩ :=
        bothOrNeither ((h o.cls).setter? name)
      · simp only [writeProperty, hf, hf', hm, hm']
      · simp only at heq hlike
        simp only [writeProperty, hf, hf', hm, hm', heq, Method.member, hlike.visibility]
        have hattempt (hp : p.permits m.visibility = true) :
            m'.invoking setter o.handle [value] = m.invoking setter o.handle [value] := by
          rw [hlike.code hp]
        rw [reach_congr hctx o name hattempt]
    · simp only [writeProperty, hf, hf', Field.member, hlike.visibility]
      exact reach_congr hctx o name fun hp => by rw [hlike.code hp]
  | _ => rfl

theorem writeIndex_congr (target key value : Value) :
    writeIndex classes ctx target key value = writeIndex classes' ctx target key value := by
  cases target with
  | object o =>
    obtain ⟨hix, hix'⟩ | ⟨ix, ix', hix, hix', hlike⟩ := bothOrNeither (h o.cls).indexer
    · cases key with
      | string name =>
        simp only [writeIndex, hix, hix']
        exact writeProperty_congr h hctx _ name value
      | _ => simp only [writeIndex, hix, hix']
    · simp only [writeIndex, hix, hix', Indexer.member, hlike.visibility]
      exact reach_congr hctx o indexerName fun hp => by rw [hlike.code hp]
  | _ => rfl

theorem evaluate_congr (e : Expr) (here : Value) :
    e.evaluate classes ctx here = e.evaluate classes' ctx here := by
  have hhost : HostRelated classes classes' ctx ctx
      fun {_} (a a' : Run σ EvalError _) => a = a' := {
    bindings := rfl
    fail := fun _ => rfl
    navigate := fun _ _ _ ha => by rw [ha]
    property := readProperty_congr h hctx
    index := indexOf_congr h hctx
    method := resultOf_congr h hctx }
  exact e.related_evaluate Sequenced.eq (hhost.steps Sequenced.eq) here

theorem setProperty_congr (target : Value) (name : String) (value : Value) :
    setProperty classes ctx target name value = setProperty classes' ctx target name value := by
  simp only [setProperty, writeProperty_congr h hctx]

theorem setIndex_congr (target key value : Value) :
    setIndex classes ctx target key value = setIndex classes' ctx target key value := by
  simp only [setIndex, writeIndex_congr h hctx]

end
end Navigation

/-! ## Denied code is not run -/

/-- The member whose code an event tells of. -/
def Event.reached? : Event → Option Member
  | reached access _ _ => some access.member
  | _ => none

/-- Not a use of a denied member's code. -/
def Event.Spares (p : VisibilityPolicy) (event : Event) : Prop :=
  ∀ m, event.reached? = some m → p.permits m.visibility = true

theorem Event.spares_of_reached? {p : VisibilityPolicy} {event : Event}
    (h : event.reached? = none) : event.Spares p := by
  intro m hm
  rw [h] at hm
  cases hm

theorem Event.reached?_of_isRemark {event : Event} (h : event.isRemark = true) :
    event.reached? = none := by
  cases event <;> first | rfl | cases h

/-- The trail grows by events that leave denied code alone. -/
def Effect.sparing (p : VisibilityPolicy) : Effect σ := fun w _ w' => w.GrowsBy (Event.Spares p) w'

theorem Effect.sparing_elevated (p : VisibilityPolicy) (b : Bindings) (access : Access) {α : Type}
    (attempt : Attempt σ α) : (sparing p).Of (elevated p.toPolicy b access attempt) := by
  intro w
  cases hp : p.permits access.member.visibility with
  | false =>
    rw [p.elevated_of_denied b attempt w hp]
    exact (World.GrowsBy.refl w).record (Event.spares_of_reached? rfl)
  | true =>
    have hreached (ending : Ending) : (Event.reached access attempt.call ending).Spares p := by
      rintro m ⟨⟩
      exact hp
    cases hflag : (w.grants access.member).flag with
    | true =>
      rw [p.elevated_of_flagged b attempt w hp hflag, attempt.perform_apply]
      refine World.GrowsBy.record ?_ (hreached _)
      exact (World.GrowsBy.refl w).record (Event.spares_of_reached? rfl)
    | false =>
      rw [p.elevated_of_unflagged b attempt w hp hflag]
      refine ⟨_, Array.toList_append, ?_⟩
      intro event hmem
      simp only [List.mem_cons, List.not_mem_nil, or_false] at hmem
      obtain rfl | rfl | rfl | rfl := hmem
      · exact Event.spares_of_reached? rfl
      · exact Event.spares_of_reached? rfl
      · exact hreached _
      · exact Event.spares_of_reached? rfl

theorem Effect.lasting_sparing (p : VisibilityPolicy) :
    Lasting p.toPolicy (sparing p : Effect σ) where
  refl := World.GrowsBy.refl
  trans h h' := h.trans h'
  fail w _ _ := .refl w
  remark h _ hevent := h.record (Event.spares_of_reached? (Event.reached?_of_isRemark hevent))
  host w host := ⟨[], by simp, by simp⟩
  ask b access w := (World.GrowsBy.refl w).record (Event.spares_of_reached? rfl)
  reach b access _ attempt _ := sparing_elevated p b access attempt

/-! ## Equal sessions -/

/-- Two actions that do the same in every session under a policy, and keep the policy. -/
def EqualUnder (P : Policy σ) {ε α : Type} (g g' : Action (Session σ) ε α) : Prop :=
  ∀ s, s.context.policy = P → g s = g' s ∧ (g s).2.context.policy = P

namespace EqualUnder

variable {P : Policy σ} {ε α : Type}

theorem sequenced :
    Sequenced fun {_} (g g' : Action (Session σ) ε _) => EqualUnder P g g' where
  pure _ := fun _ hs => ⟨rfl, hs⟩
  bind {_ _ g g' f f'} hg hf := by
    intro s hs
    obtain ⟨heq, hpolicy⟩ := hg s hs
    obtain ⟨e, s', hr, hbind⟩ | ⟨x, s', hr, hbind⟩ := Action.bind_cases g f s
    · rw [hr] at hpolicy heq
      rw [hbind, Action.bind_of_error heq.symm]
      exact ⟨rfl, hpolicy⟩
    · rw [hr] at hpolicy heq
      rw [hbind, Action.bind_of_ok heq.symm]
      exact hf x s' hpolicy

theorem refl {g : Action (Session σ) ε α} (hg : ∀ s, (g s).2.context.policy = s.context.policy) :
    EqualUnder P g g := fun s hs => ⟨rfl, (hg s).trans hs⟩

theorem ofSession {K : Effect σ} {cause : ε → EvalError} {g : Action (Session σ) ε α}
    (hg : K.OfSession P cause g) : EqualUnder P g g := fun s hs => ⟨rfl, (hg s hs).1⟩

theorem reading {f f' : Context σ → Run σ ε α} (hf : ∀ ctx, ctx.policy = P → f ctx = f' ctx) :
    EqualUnder P (Session.reading f) (Session.reading f') := by
  intro s hs
  refine ⟨?_, hs⟩
  simp only [Session.reading, hf s.context hs]

variable {p : VisibilityPolicy} {classes classes' : Registry σ}

theorem assign (h : ∀ cls, (classes cls).Alike p (classes' cls)) (e : Expr) (here value : Value) :
    EqualUnder p.toPolicy (e.assign classes here value) (e.assign classes' here value) := by
  have hsteps : AssignRelated classes classes'
      fun {_} (g g' : Action (Session σ) EvalError _) => EqualUnder p.toPolicy g g' := {
    fail := fun _ => refl fun _ => rfl
    setVariable := fun _ _ => refl fun _ => rfl
    key := fun key => reading fun ctx hctx => Navigation.evaluate_congr h hctx key ctx.root
    link := fun link here => reading fun ctx hctx => Navigation.evaluate_congr h hctx link here
    property := fun here name value => reading fun ctx hctx =>
      Navigation.setProperty_congr h hctx here name value
    index := fun here key value => reading fun ctx hctx =>
      Navigation.setIndex_congr h hctx here key value }
  exact e.related_assign sequenced hsteps here value

theorem checkProperty (h : ∀ cls, (classes cls).Alike p (classes' cls)) (e : Expr)
    (target : Value) (name : String) :
    Generation.checkProperty classes e target name =
      Generation.checkProperty classes' e target name := by
  cases target with
  | object o =>
    obtain ⟨hq, hq'⟩ | ⟨q, q', hq, hq', hlike⟩ := bothOrNeither ((h o.cls).property? name)
    · simp only [Generation.checkProperty, hq, hq']
    · simp only [Generation.checkProperty, hq, hq', hlike.member]
  | _ => rfl

theorem checkMethod (h : ∀ cls, (classes cls).Alike p (classes' cls)) (e : Expr)
    (target : Value) (name : String) :
    Generation.checkMethod classes e target name =
      Generation.checkMethod classes' e target name := by
  cases target with
  | object o =>
    obtain ⟨hm, hm'⟩ | ⟨m, m', hm, hm', hlike⟩ := bothOrNeither ((h o.cls).methods name)
    · simp only [Generation.checkMethod, hm, hm']
    · simp only [Generation.checkMethod, hm, hm', Method.member, hlike.visibility]
  | _ => rfl

theorem stepping (h : ∀ cls, (classes cls).Alike p (classes' cls)) (whole link : Expr)
    (here : Value) :
    EqualUnder p.toPolicy (Generation.stepping classes whole link here)
      (Generation.stepping classes' whole link here) := by
  intro s hs
  have hlink := Navigation.evaluate_congr h hs link here
  refine ⟨?_, hs⟩
  simp only [Generation.stepping, Action.mapError, Session.reading, hlink]

theorem generate (h : ∀ cls, (classes cls).Alike p (classes' cls)) (e : Expr) (target : Value) :
    EqualUnder p.toPolicy (e.generate classes target) (e.generate classes' target) := by
  have hK : (Effect.sparing p : Effect σ).Lasting p.toPolicy := Effect.lasting_sparing p
  have hsteps : RenderRelated classes classes'
      fun {_} (g g' : Generation σ _) => EqualUnder p.toPolicy g g' := {
    current := fun hf s hs => hf s.context s.context (Context.Alike.refl _) s hs
    setHint := fun _ => refl fun _ => rfl
    setPlace := fun _ => refl fun _ => rfl
    keepingPlace := fun hg s hs => by
      obtain ⟨heq, hpolicy⟩ := hg s hs
      refine ⟨?_, hpolicy⟩
      simp only [Generation.keepingPlace, heq]
    within := fun e g g' hg s hs => by
      obtain ⟨heq, hpolicy⟩ := hg s hs
      refine ⟨?_, hpolicy⟩
      simp only [Action.mapError, heq]
    checkProperty := fun e target name => by
      rw [checkProperty h]
      exact ofSession (hK.checks.property hK.sequencedSession classes' e target name)
    checkMethod := fun e target name => by
      rw [checkMethod h]
      exact ofSession (hK.checks.method hK.sequencedSession classes' e target name)
    stepping := stepping h }
  exact e.related_generate sequenced hsteps target

end EqualUnder

/-! ## Confinement -/

/-- Under a policy, two hosts that differ in denied code only cannot be told apart by any
expression, whether it is evaluated, assigned through or generated: the outcome, the context, the
host's state and the trail are the same. And in what the trail grows by, no denied member is
reached. -/
theorem denied_code_unobservable {p : VisibilityPolicy} {classes classes' : Registry σ}
    (h : ∀ cls, (classes cls).Alike p (classes' cls)) (s : Session σ)
    (hs : s.context.policy = p.toPolicy) (e : Expr) (here value : Value) :
    (e.evaluate classes s.context here s.world = e.evaluate classes' s.context here s.world ∧
      s.world.GrowsBy (Event.Spares p) (e.evaluate classes s.context here s.world).2) ∧
    (e.assign classes here value s = e.assign classes' here value s ∧
      s.world.GrowsBy (Event.Spares p) (e.assign classes here value s).2.world) ∧
    (e.generate classes here s = e.generate classes' here s ∧
      s.world.GrowsBy (Event.Spares p) (e.generate classes here s).2.world) := by
  have hK : (Effect.sparing p : Effect σ).Lasting p.toPolicy := Effect.lasting_sparing p
  refine ⟨⟨?_, ?_⟩, ⟨?_, ?_⟩, ⟨?_, ?_⟩⟩
  · rw [Navigation.evaluate_congr h hs e here]
  · exact hK.evaluate hs e here s.world
  · exact (EqualUnder.assign h e here value s hs).1
  · exact (hK.assign e here value s hs).2
  · exact (EqualUnder.generate h e here s hs).1
  · exact (hK.generate e here s hs).2

/-- A class with one private field. -/
def vault (secret : Int64) : ClassTable Unit :=
  ClassTable.build [.field "code" .isPrivate fun _ => pure (.integer secret)]

theorem vault_alike (secret secret' : Int64) :
    (vault secret).Alike VisibilityPolicy.publicOnly (vault secret') where
  fields name := by
    simp only [ClassTable.field?, vault, ClassTable.build, List.foldl, ClassTable.register,
      Dict.find?_insert]
    split
    · exact .some ⟨rfl, fun h => absurd h Bool.false_ne_true⟩
    · exact .none
  methods name := .none
  indexer := .none

theorem vault_code_unobservable :
    let s : Session Unit := ⟨Context.new (.object ⟨⟨0, "Vault"⟩, "v"⟩), World.start ()⟩
    (Expr.property "code").evaluate (fun _ => vault 1) s.context s.context.root s.world =
      (Expr.property "code").evaluate (fun _ => vault 2) s.context s.context.root s.world :=
  (denied_code_unobservable (fun _ => vault_alike 1 2) _ rfl (.property "code") _ .null).1.1

end ObjectGraph
