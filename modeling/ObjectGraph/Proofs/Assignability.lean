import ObjectGraph.Proofs.Gate
import ObjectGraph.Proofs.Registrations

/-!
# Which properties can be assigned

Under a policy that lets every access through, an assignment to a property of a host object runs
host code exactly when the field of that name has a setter, or there is no field of that name and
the method `set_` name takes one argument. A field without a setter hides such a method: the
assignment is refused at the field, and the method is not looked for.
-/
namespace ObjectGraph

variable {σ α : Type}

/-- To throw the result away leaves the state as the action did. -/
theorem Action.snd_bind_pure {S ε β : Type} (a : Action S ε α) (b : β) (s : S) :
    ((a >>= fun _ => pure b) s).2 = (a s).2 := by
  rw [bind_apply]
  rcases a s with ⟨_ | _, _⟩ <;> rfl

/-! ## Host code that ran -/

/-- The code of the attempt was run, whatever came of it. -/
def Ending.ran : Ending → Bool
  | refused _ => false
  | failed _ => true
  | returned => true

theorem Ending.ran_ofResult (result : Except EvalError α) : (ofResult result).ran = true := by
  cases result <;> rfl

def Event.ran : Event → Bool
  | reached _ _ ending => ending.ran
  | _ => false

namespace World

/-- The runs of host code, oldest first. -/
def hostRuns (w : World σ) : List Event := w.trail.toList.filter Event.ran

theorem hostRuns_record (w : World σ) (event : Event) (h : event.ran = false) :
    (w.record event).hostRuns = w.hostRuns := by
  simp [hostRuns, toList_trail_record, h]

end World

namespace Attempt

variable {attempt : Attempt σ α} {code : HostCode σ α} {error : EvalError}

theorem endingAt_of_ok (h : attempt.outcome = .ok code) (host : σ) :
    attempt.endingAt host = .ofResult (code host).1 := by
  rw [endingAt, h]

theorem endingAt_of_error (h : attempt.outcome = .error error) (host : σ) :
    attempt.endingAt host = .refused error := by
  rw [endingAt, h]

theorem resultAt_of_error (h : attempt.outcome = .error error) (host : σ) :
    attempt.resultAt host = .error error := by
  rw [resultAt, h]

end Attempt

/-! ## Policies that let every access through -/

/-- The policy says yes to every access, and unless the member is flagged then, its setup flags
it or hands out an elevation. -/
def Policy.OpensAll (P : Policy σ) : Prop :=
  ∀ b access s, ∃ s', P.isAccessible b access s = (true, s') ∧
    ((s'.grants access.member).flag = true ∨ ∃ token s'', P.setup b access s' = (token, s'') ∧
      ((s''.grants access.member).flag = true ∨ token.isElevated = true))

theorem VisibilityPolicy.opensAll_all : ((all true).toPolicy : Policy σ).OpensAll := by
  intro b access s
  have hpermits : (all true).permits access.member.visibility = true := by
    cases access.member.visibility <;> rfl
  refine ⟨s, (all true).isAccessible_eq b hpermits s, ?_⟩
  cases hflag : (s.grants access.member).flag with
  | true => exact .inl rfl
  | false =>
    refine .inr ⟨.elevated false, s.elevate access.member, ?_, .inr rfl⟩
    simp [toPolicy, setup, hpermits, hflag]

namespace Policy.OpensAll

variable {P : Policy σ} (h : P.OpensAll) (b : Bindings) (access : Access) {attempt : Attempt σ α}
  (w : World σ)
include h

/-- The attempt is made, in a state that the policy leaves to it, and its errors are final. -/
theorem elevated_cases (attempt : Attempt σ α) : ∃ host : σ,
    (elevated P b access attempt w).2.hostRuns =
      w.hostRuns ++ [.reached access attempt.call (attempt.endingAt host)].filter Event.ran ∧
    ∀ e, attempt.resultAt host = .error e → (elevated P b access attempt w).1 = .error e := by
  obtain ⟨s, hask, hflag⟩ := h b access w.toShared
  cases hdirect : (s.grants access.member).flag with
  | true =>
    refine ⟨s.host, ?_⟩
    rw [elevated_of_flag attempt w hask hdirect, attempt.perform_apply]
    exact ⟨by simp [World.hostRuns, World.record, Event.ran], fun _ he => he⟩
  | false =>
    obtain ⟨token, s', hsetup, hopen⟩ := hflag.resolve_left (by simp [hdirect])
    refine ⟨s'.host, ?_⟩
    rw [elevated_of_lent attempt w hask hdirect hsetup hopen rfl]
    constructor
    · cases hran : (attempt.endingAt s'.host).ran <;> simp [World.hostRuns, Event.ran, hran]
    · intro e he
      rw [he]
      rfl

theorem runs_of_ok {code : HostCode σ α} (hcode : attempt.outcome = .ok code) :
    ∃ host, (elevated P b access attempt w).2.hostRuns =
      w.hostRuns ++ [.reached access attempt.call (.ofResult (code host).1)] := by
  obtain ⟨host, hruns, -⟩ := h.elevated_cases b access w attempt
  refine ⟨host, ?_⟩
  rw [hruns, attempt.endingAt_of_ok hcode host]
  simp [Event.ran, Ending.ran_ofResult]

/-- A refused attempt is an error of the access, and no host code has run. -/
theorem refused_of_error {error : EvalError} (hrefused : attempt.outcome = .error error) :
    (elevated P b access attempt w).1 = .error error ∧
      (elevated P b access attempt w).2.hostRuns = w.hostRuns := by
  obtain ⟨host, hruns, herror⟩ := h.elevated_cases b access w attempt
  refine ⟨herror error (attempt.resultAt_of_error hrefused host), ?_⟩
  rw [hruns, attempt.endingAt_of_error hrefused host]
  simp [Event.ran, Ending.ran]

end Policy.OpensAll

/-! ## Assignments to a host object -/

namespace Registration

variable (registrations : List (Registration σ)) (name : String)

/-- The field of that name has a setter. -/
def HasSetter : Prop :=
  ∃ f, lastField? registrations name = some f ∧ f.write.isSome = true

/-- The field of that name has no setter. -/
def ReadOnly : Prop :=
  ∃ f, lastField? registrations name = some f ∧ f.write = none

/-- The method `set_` name takes one argument. -/
def HasSetMethod : Prop :=
  ∃ m, lastMethod? registrations ("set_" ++ name) = some m ∧ m.arity = some 1

/-- There is something to set the property with. -/
def Assignable : Prop := HasSetter registrations name ∨ HasSetMethod registrations name

/-- The method stands behind a field that cannot be written. -/
def Hidden : Prop := ReadOnly registrations name ∧ HasSetMethod registrations name

end Registration

/-- A run of the code that sets the property to the value: the setter of the field, or the method
`set_` name. It ends as that code does in some state of the host. -/
inductive HostWrite (registrations : List (Registration σ)) (o : ObjectRef) (name : String)
    (value : Value) : Event → Prop
  | field {f : Field σ} {write : String → Value → HostCode σ Unit}
      (hfield : Registration.lastField? registrations name = some f) (hwrite : f.write = some write)
      (host : σ) :
      HostWrite registrations o name value
        (.reached ⟨.object o, f.member o.cls name, name⟩ (.write value)
          (.ofResult (write o.handle value host).1))
  | method {m : Method σ}
      (hmethod : Registration.lastMethod? registrations ("set_" ++ name) = some m) (host : σ) :
      HostWrite registrations o name value
        (.reached ⟨.object o, m.member o.cls ("set_" ++ name), name⟩ (.invoke [value])
          (.ofResult (m.body o.handle [value] host).1))

/-- What came of an assignment that started in that world. -/
abbrev Assigned (σ : Type) := Except EvalError Unit × World σ

namespace Assigned

variable {registrations : List (Registration σ)} {o : ObjectRef} {name : String} {value : Value}
  {w : World σ} {r : Assigned σ}

/-- The host ran one write of the value to the property and nothing else. -/
def Writes (registrations : List (Registration σ)) (o : ObjectRef) (name : String) (value : Value)
    (w : World σ) (r : Assigned σ) : Prop :=
  ∃ event, HostWrite registrations o name value event ∧ r.2.hostRuns = w.hostRuns ++ [event]

/-- The assignment failed, and no host code has run. -/
def Fails (w : World σ) (r : Assigned σ) : Prop :=
  (∃ e, r.1 = .error e) ∧ r.2.hostRuns = w.hostRuns

theorem Fails.not_writes (h : Fails w r) : ¬ Writes registrations o name value w r := by
  rintro ⟨event, -, hruns⟩
  have hsame : w.hostRuns ++ [event] = w.hostRuns := hruns.symm.trans h.2
  simpa using congrArg List.length hsame

/-- The assignment writes when the condition holds, only then, and fails otherwise. -/
structure WritesJustWhen (condition : Prop) (registrations : List (Registration σ)) (o : ObjectRef)
    (name : String) (value : Value) (w : World σ) (r : Assigned σ) : Prop where
  writes_iff : Writes registrations o name value w r ↔ condition
  fails : ¬ condition → Fails w r

theorem WritesJustWhen.intro {condition : Prop}
    (hwrites : condition → Writes registrations o name value w r)
    (hfails : ¬ condition → Fails w r) :
    WritesJustWhen condition registrations o name value w r := by
  refine ⟨⟨fun h => ?_, hwrites⟩, hfails⟩
  exact Classical.byContradiction fun hnot => (hfails hnot).not_writes h

theorem WritesJustWhen.iff_congr {c c' : Prop}
    (h : WritesJustWhen c registrations o name value w r) :
    WritesJustWhen c' registrations o name value w r ↔ (c' ↔ c) := by
  constructor
  · exact fun h' => h'.writes_iff.symm.trans h.writes_iff
  · intro hiff
    rwa [propext hiff]

/-- Only the host code that ran before counts in the world an assignment starts in. -/
theorem WritesJustWhen.of_hostRuns_eq {condition : Prop} {w' : World σ}
    (h : WritesJustWhen condition registrations o name value w' r)
    (hruns : w'.hostRuns = w.hostRuns) :
    WritesJustWhen condition registrations o name value w r := by
  refine ⟨?_, fun hnot => ?_⟩
  · rw [← h.writes_iff]
    simp only [Writes, hruns]
  · exact ⟨(h.fails hnot).1, (h.fails hnot).2.trans hruns⟩

end Assigned

namespace Navigation

variable {classes : Registry σ} {ctx : Context σ} {registrations : List (Registration σ)}
  {o : ObjectRef} {name : String} (value : Value) (w : World σ)

/-- A field of that name is written or refused, whatever methods there are. -/
theorem writeProperty_of_field (hclass : classes o.cls = .build registrations)
    (hopen : ctx.policy.OpensAll) {f : Field σ}
    (hfield : Registration.lastField? registrations name = some f) :
    let r := writeProperty classes ctx (.object o) name value w
    (f.write.isSome = true → Assigned.Writes registrations o name value w r) ∧
      (f.write = none → r.1 = .error (.notAssignable
        ("field '" ++ o.cls.name ++ "::" ++ name ++ "' is read-only")) ∧
        r.2.hostRuns = w.hostRuns) := by
  intro r
  have hrun : r = reach ctx o (f.member o.cls name) name
      (f.writing (f.member o.cls name) o.handle value) w := by
    simp only [r, writeProperty, hclass, ClassTable.field?_build, hfield]
  rw [hrun]
  constructor
  · intro hsetter
    obtain ⟨write, hwrite⟩ := Option.isSome_iff_exists.1 hsetter
    have hcode : (f.writing (f.member o.cls name) o.handle value).outcome =
        .ok (write o.handle value) := by
      simp only [Field.writing, hwrite]
    obtain ⟨host, hruns⟩ :=
      hopen.runs_of_ok ctx.toBindings ⟨.object o, f.member o.cls name, name⟩ w hcode
    exact ⟨_, .field hfield hwrite host, hruns⟩
  · intro hnone
    refine hopen.refused_of_error ctx.toBindings ⟨.object o, f.member o.cls name, name⟩ w ?_
    simp [Field.writing, hnone, Member.display, Field.member, String.append_assoc]

/-- Without a field it is the method `set_` name, which needs to take one argument. -/
theorem writeProperty_of_no_field (hclass : classes o.cls = .build registrations)
    (hopen : ctx.policy.OpensAll) (hfield : Registration.lastField? registrations name = none) :
    let r := writeProperty classes ctx (.object o) name value w
    (Registration.HasSetMethod registrations name →
        Assigned.Writes registrations o name value w r) ∧
      (¬ Registration.HasSetMethod registrations name → Assigned.Fails w r) := by
  intro r
  constructor
  · rintro ⟨m, hmethod, harity⟩
    have hsetter : (classes o.cls).setter? name = some ("set_" ++ name, m) := by
      simp [ClassTable.setter?, hclass, ClassTable.method?_build, hmethod, harity]
    have hruns : r.2 = (reach ctx o (m.member o.cls ("set_" ++ name)) name
        (m.invoking ("set_" ++ name) o.handle [value]) w).2 := by
      simp only [r, writeProperty, hclass, ClassTable.field?_build, hfield] at hsetter ⊢
      simp only [hsetter]
      exact Action.snd_bind_pure _ () w
    have hcode : (m.invoking ("set_" ++ name) o.handle [value]).outcome =
        .ok (m.body o.handle [value]) := by
      simp [Method.invoking, harity]
    obtain ⟨host, happend⟩ := hopen.runs_of_ok ctx.toBindings
      ⟨.object o, m.member o.cls ("set_" ++ name), name⟩ w hcode
    exact ⟨_, .method hmethod host, hruns ▸ happend⟩
  · intro hnone
    have hsetter : (classes o.cls).setter? name = none := by
      simpa [ClassTable.setter?, hclass, ClassTable.method?_build, Registration.HasSetMethod]
        using hnone
    have hrun : r = (.error (.noSuchMember o.cls.name name), w) := by
      simp only [r, writeProperty, hclass, ClassTable.field?_build, hfield] at hsetter ⊢
      simp [hsetter]
    exact ⟨⟨_, by rw [hrun]⟩, by rw [hrun]⟩

/-- Where there is a field of that name, a method `set_` name makes no difference. -/
theorem writeProperty_writesJustWhen (hclass : classes o.cls = .build registrations)
    (hopen : ctx.policy.OpensAll) :
    Assigned.WritesJustWhen
      (Registration.Assignable registrations name ∧ ¬ Registration.Hidden registrations name)
      registrations o name value w (writeProperty classes ctx (.object o) name value w) := by
  cases hlast : Registration.lastField? registrations name with
  | some f =>
    obtain ⟨hwrites, hrefused⟩ := writeProperty_of_field value w hclass hopen hlast
    cases hwrite : f.write with
    | some write =>
      have hsetter : Registration.HasSetter registrations name := ⟨f, hlast, by simp [hwrite]⟩
      have hhidden : ¬ Registration.Hidden registrations name := by
        simp [Registration.Hidden, Registration.ReadOnly, hlast, hwrite]
      exact .intro (fun _ => hwrites (by simp [hwrite]))
        fun hnot => absurd ⟨.inl hsetter, hhidden⟩ hnot
    | none =>
      have hsetter : ¬ Registration.HasSetter registrations name := by
        simp [Registration.HasSetter, hlast, hwrite]
      obtain ⟨herror, hruns⟩ := hrefused hwrite
      refine .intro (fun h => ?_) fun _ => ⟨⟨_, herror⟩, hruns⟩
      exact absurd ⟨⟨f, hlast, hwrite⟩, h.1.resolve_left hsetter⟩ h.2
  | none =>
    have hsetter : ¬ Registration.HasSetter registrations name := by
      simp [Registration.HasSetter, hlast]
    have hhidden : ¬ Registration.Hidden registrations name := by
      simp [Registration.Hidden, Registration.ReadOnly, hlast]
    obtain ⟨hwrites, hfails⟩ := writeProperty_of_no_field value w hclass hopen hlast
    exact .intro (fun h => hwrites (h.1.resolve_left hsetter))
      fun hnot => hfails fun hmethod => hnot ⟨.inr hmethod, hhidden⟩

/-- Before it is written to a property, every assignment leaves a remark in the trail. -/
theorem exists_setProperty_eq : ∃ w' : World σ, w'.hostRuns = w.hostRuns ∧
    setProperty classes ctx (.object o) name value w =
      writeProperty classes ctx (.object o) name value w' :=
  ⟨_, w.hostRuns_record (.assigning (.object o) (.name name) value) rfl, rfl⟩

/-- Without an indexer a string is the name of a property. -/
theorem exists_setIndex_eq (hindexer : (classes o.cls).indexer = none) :
    ∃ w' : World σ, w'.hostRuns = w.hostRuns ∧
      setIndex classes ctx (.object o) (.string name) value w =
        writeProperty classes ctx (.object o) name value w' := by
  refine ⟨_, w.hostRuns_record (.assigning (.object o) (.index (.string name)) value) rfl, ?_⟩
  change writeIndex classes ctx (.object o) (.string name) value _ = _
  simp only [writeIndex, hindexer]

end Navigation

/-- Under a policy that lets every access through, an assignment to a property of a host object, by
its name or as an index where the class has no indexer, writes the value when there is a setter, in
the field or as a method, and no field hides the method; otherwise it fails without running host
code. So to look for a setter alone is right for exactly the properties that are not hidden, and
a hidden one is refused as read-only. -/
theorem assignment_writes_just_when_not_hidden (classes : Registry σ) (ctx : Context σ)
    (registrations : List (Registration σ)) (o : ObjectRef)
    (hclass : classes o.cls = .build registrations) (hopen : ctx.policy.OpensAll)
    (name : String) (value : Value) (w : World σ) (run : Run σ EvalError Unit)
    (hrun : run = Navigation.setProperty classes ctx (.object o) name value ∨
      registrations.any Registration.isIndexer = false ∧
        run = Navigation.setIndex classes ctx (.object o) (.string name) value) :
    let assignable := Registration.Assignable registrations name
    let hidden := Registration.Hidden registrations name
    Assigned.WritesJustWhen (assignable ∧ ¬ hidden) registrations o name value w (run w) ∧
      (Assigned.WritesJustWhen assignable registrations o name value w (run w) ↔ ¬ hidden) ∧
      (hidden → (run w).1 = .error (.notAssignable
        ("field '" ++ o.cls.name ++ "::" ++ name ++ "' is read-only"))) := by
  intro assignable hidden
  obtain ⟨w', hruns, hwrite⟩ : ∃ w' : World σ, w'.hostRuns = w.hostRuns ∧
      run w = Navigation.writeProperty classes ctx (.object o) name value w' := by
    obtain rfl | ⟨hindexer, rfl⟩ := hrun
    · exact Navigation.exists_setProperty_eq value w
    · refine Navigation.exists_setIndex_eq value w ?_
      rw [hclass, ClassTable.indexer_build_eq_none_iff, hindexer]
  have hmain :
      Assigned.WritesJustWhen (assignable ∧ ¬ hidden) registrations o name value w (run w) := by
    rw [hwrite]
    exact (Navigation.writeProperty_writesJustWhen value w' hclass hopen).of_hostRuns_eq hruns
  refine ⟨hmain, ?_, ?_⟩
  · rw [hmain.iff_congr]
    constructor
    · exact fun hiff hhidden => (hiff.1 (.inr hhidden.2)).2 hhidden
    · exact fun hhidden => ⟨fun h => ⟨h, hhidden⟩, And.left⟩
  · rintro ⟨⟨f, hlast, hnone⟩, -⟩
    rw [hwrite]
    exact ((Navigation.writeProperty_of_field value w' hclass hopen hlast).2 hnone).1

/-- The field has no setter, so the method `set_level` is not called. -/
theorem hidden_setter_not_called :
    let registrations : List (Registration Value) :=
      [.field "level" .isPublic fun _ level => (.ok level, level),
        .method "set_level" .isPublic 1 fun _ args _ => (.ok .null, args.headD .null)]
    let ctx := { Context.new .null with policy := (VisibilityPolicy.all true).toPolicy }
    let dial := Value.object ⟨⟨0, "Dial"⟩, "d"⟩
    let after := Navigation.setProperty (fun _ => .build registrations) ctx dial "level"
      (.integer 5) (World.start (.integer 1))
    Registration.Assignable registrations "level" ∧
      after.1 = .error (.notAssignable "field 'Dial::level' is read-only") ∧
      after.2.hostRuns = [] ∧ after.2.host = .integer 1 := by
  intro registrations ctx dial after
  exact ⟨.inr ⟨_, rfl, rfl⟩, rfl, rfl, rfl⟩

/-- The field is registered again with a setter, and the index is the name of the property. -/
theorem assignment_writes_of_field_registered_again :
    let read : String → HostCode Value Value := fun _ level => (.ok level, level)
    let registrations : List (Registration Value) :=
      [.field "level" .isPrivate read,
        .variadic "set_level" .isPublic fun _ _ => Action.fail (.typeError "levels"),
        .writableField "level" .isPrivate read fun _ level _ => (.ok (), level)]
    let ctx := { Context.new .null with policy := (VisibilityPolicy.all true).toPolicy }
    let dial : ObjectRef := ⟨⟨0, "Dial"⟩, "d"⟩
    let w := World.start (Value.integer 1)
    let after := Navigation.setIndex (fun _ => .build registrations) ctx (.object dial)
      (.string "level") (.integer 5) w
    ¬ Registration.Hidden registrations "level" ∧ after.2.host = .integer 5 ∧
      Assigned.Writes registrations dial "level" (.integer 5) w after := by
  intro read registrations ctx dial w after
  have hhidden : ¬ Registration.Hidden registrations "level" := by
    rintro ⟨⟨f, hfield, hnone⟩, -⟩
    obtain rfl := Option.some.inj hfield
    cases hnone
  obtain ⟨-, hiff, -⟩ := assignment_writes_just_when_not_hidden (fun _ => .build registrations) ctx
    registrations dial rfl VisibilityPolicy.opensAll_all "level" (.integer 5) w _ (.inr ⟨rfl, rfl⟩)
  exact ⟨hhidden, rfl, (hiff.2 hhidden).writes_iff.2 (.inl ⟨_, rfl, rfl⟩)⟩

end ObjectGraph
