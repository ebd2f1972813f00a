import ObjectGraph.Generation
import ObjectGraph.Proofs.Gate
import ObjectGraph.Proofs.Registrations

/-!
# Rejected members

A name that a host class does not have and a member that the policy denies are rejected before any
host code is run, whatever the state of the world. Generation looks up the same members as
evaluation does and so rejects the same names. Only the error of generation always tells the name
of the property, while that of evaluation tells the name of the member.
-/
namespace ObjectGraph

open Generation Navigation

variable {σ α : Type}

/-- Errors that reject a member. -/
def EvalError.isRejection : EvalError → Bool
  | noSuchMember _ _ => true
  | inaccessible _ _ => true
  | _ => false

/-! ## Host code that rejects nothing -/

/-- The code does not end as if a member were missing or denied. -/
def HostCode.Candid (code : HostCode σ α) : Prop :=
  ∀ host e, (code host).1 = .error e → e.isRejection = false

/-- The code that reads a property or answers a call is candid. -/
structure ClassTable.Candid (table : ClassTable σ) : Prop where
  read {name : String} {f : Field σ} (h : table.field? name = some f) (handle : String) :
    HostCode.Candid (f.read handle)
  body {name : String} {m : Method σ} (h : table.method? name = some m) (handle : String)
    (args : List Value) : HostCode.Candid (m.body handle args)

/-- The code registered for reading or for calls is candid. -/
def Registration.Candid : Registration σ → Prop
  | field _ _ read | writableField _ _ read _ => ∀ handle, HostCode.Candid (read handle)
  | method _ _ _ body | variadic _ _ body => ∀ handle args, HostCode.Candid (body handle args)
  | _ => True

theorem ClassTable.candid_build {registrations : List (Registration σ)}
    (h : ∀ r ∈ registrations, r.Candid) : (build registrations).Candid := by
  constructor
  · intro name f hfield
    rw [field?_build] at hfield
    obtain ⟨r, hmem, hr⟩ := Registration.exists_of_lastField? hfield
    have hcandid := h r hmem
    cases r with
    | field n visibility read | writableField n visibility read write =>
      simp only [Registration.field?] at hr
      split at hr
      · cases hr
        exact hcandid
      · cases hr
    | _ => cases hr
  · intro name m hmethod
    rw [method?_build] at hmethod
    obtain ⟨r, hmem, hr⟩ := Registration.exists_of_lastMethod? hmethod
    have hcandid := h r hmem
    cases r with
    | method n visibility arity body | variadic n visibility body =>
      simp only [Registration.method?] at hr
      split at hr
      · cases hr
        exact hcandid
      · cases hr
    | _ => cases hr

def Attempt.Candid (attempt : Attempt σ α) : Prop :=
  ∀ host e, attempt.resultAt host = .error e → e.isRejection = false

namespace ClassTable

variable {table : ClassTable σ} {name : String}

theorem getter?_eq_some {q : Property σ} (h : table.getter? name = some q) :
    ∃ m, table.method? name = some m ∧ q = .getter name m := by
  obtain ⟨m, hm, hq⟩ := Option.bind_eq_some_iff.1 h
  split at hq
  · exact ⟨m, hm, (Option.some.inj hq).symm⟩
  · cases hq

/-- A property is the field of that name, or else some method. -/
theorem property?_eq_some {q : Property σ} (h : table.property? name = some q) :
    (∃ f, table.field? name = some f ∧ q = .field name f) ∨
      ∃ getter m, table.method? getter = some m ∧ q = .getter getter m := by
  unfold property? at h
  split at h
  next f hfield => exact .inl ⟨f, hfield, (Option.some.inj h).symm⟩
  next =>
    right
    rw [Option.or_eq_some_iff, Option.or_eq_some_iff] at h
    obtain h | ⟨-, h | ⟨-, h⟩⟩ := h
    · exact ⟨_, getter?_eq_some h⟩
    · exact ⟨_, getter?_eq_some h⟩
    · exact ⟨_, getter?_eq_some h⟩

theorem Candid.invoking (h : table.Candid) {m : Method σ} (hm : table.method? name = some m)
    (handle : String) (args : List Value) : (m.invoking name handle args).Candid := by
  intro host e he
  have hbody := h.body hm handle args host e
  simp only [Attempt.resultAt, Method.invoking] at he
  cases harity : m.arity with
  | none => exact hbody (by simpa [harity] using he)
  | some expected =>
    by_cases hcount : expected = args.length
    · exact hbody (by simpa [harity, hcount] using he)
    · simp only [harity, hcount, if_false, Except.error.injEq] at he
      exact he ▸ rfl

theorem Candid.reading (h : table.Candid) {q : Property σ} (hq : table.property? name = some q)
    (handle : String) : (q.reading handle).Candid := by
  obtain ⟨f, hfield, rfl⟩ | ⟨getter, m, hm, rfl⟩ := property?_eq_some hq
  · exact h.read hfield handle
  · exact h.invoking hm handle []

end ClassTable

/-! ## Rejections of evaluation -/

namespace VisibilityPolicy

/-- Why the member found under a name is rejected, if it is. -/
def rejection? (p : VisibilityPolicy) (cls : ClassRef) (name : String) :
    Option Member → Option EvalError
  | none => some (.noSuchMember cls.name name)
  | some member =>
    if p.permits member.visibility then none else some (.inaccessible cls.name member.name)

variable {p : VisibilityPolicy} {cls : ClassRef} {name : String}

theorem isRejection_of_rejection? {found : Option Member} {e : EvalError}
    (h : p.rejection? cls name found = some e) : e.isRejection = true := by
  cases found with
  | none =>
    cases h
    rfl
  | some member =>
    simp only [rejection?] at h
    split at h
    · cases h
    · cases h
      rfl

/-- To tell the name that was asked for makes no difference exactly when a denied member has that
name. -/
theorem rejection?_renamed_iff {found : Option Member} :
    p.rejection? cls name (found.map fun member => { member with name }) =
        p.rejection? cls name found ↔
      ∀ member, found = some member → p.permits member.visibility = false → name = member.name := by
  cases found with
  | none => simp
  | some member => cases hpermits : p.permits member.visibility <;> simp [rejection?, hpermits]

/-- A permitted access is made, and what it comes to is no rejection. -/
theorem elevated_eq_rejection_iff (p : VisibilityPolicy) (b : Bindings) {access : Access}
    {attempt : Attempt σ α} (hcandid : attempt.Candid) (w : World σ) {e : EvalError}
    (he : e.isRejection = true) :
    (elevated p.toPolicy b access attempt w).1 = .error e ↔
      p.permits access.member.visibility = false ∧ access.denied = e := by
  cases hpermits : p.permits access.member.visibility with
  | false => simp [p.elevated_of_denied b attempt w hpermits]
  | true =>
    refine iff_of_false (fun herror => ?_) (by simp)
    cases hflag : (w.grants access.member).flag with
    | true =>
      rw [p.elevated_of_flagged b attempt w hpermits hflag, attempt.perform_apply] at herror
      simp [hcandid _ e herror] at he
    | false =>
      rw [p.elevated_of_unflagged b attempt w hpermits hflag] at herror
      simp only [settled] at herror
      split at herror
      next e' hresult =>
        obtain rfl : e' = e := Except.error.inj herror
        simp [hcandid _ e' hresult] at he
      next =>
        obtain rfl := Except.error.inj herror
        cases he
      next => cases herror

end VisibilityPolicy

/-- In every world the run ends with that rejection, or with none. -/
def RejectsWith (rejection : Option EvalError) (run : Run σ EvalError α) : Prop :=
  ∀ w e, e.isRejection = true → ((run w).1 = .error e ↔ rejection = some e)

namespace RejectsWith

theorem fail (e : EvalError) : RejectsWith (some e) (Action.fail e : Run σ EvalError α) :=
  fun _ _ _ => by simp

variable {classes : Registry σ} {ctx : Context σ} {p : VisibilityPolicy} {o : ObjectRef}
  {name : String}

theorem reach (hctx : ctx.policy = p.toPolicy) {member : Member} (hcls : member.cls = o.cls)
    (asked : String) {attempt : Attempt σ α} (hcandid : attempt.Candid) :
    RejectsWith (p.rejection? o.cls name (some member)) (reach ctx o member asked attempt) := by
  intro w e he
  rw [Navigation.reach, hctx, p.elevated_eq_rejection_iff ctx.toBindings hcandid w he]
  cases hpermits : p.permits member.visibility <;>
    simp [VisibilityPolicy.rejection?, Access.denied, hpermits, hcls]

/-- What is put in the place of a null is a value. -/
theorem navigate (step : Step) {rejection : Option EvalError} {run : Run σ EvalError Value}
    (h : RejectsWith rejection run) : RejectsWith rejection (navigate ctx step run) := by
  intro w e he
  rw [← h w e he]
  rcases hrun : run w with ⟨_ | value, w'⟩
  · simp [Navigation.navigate, World.recording, Action.bind_apply, hrun]
  · refine iff_of_false ?_ nofun
    simp only [Navigation.navigate, World.recording, Action.bind_apply, hrun]
    split
    · unfold NullHandlers.fill
      split <;> nofun
    · nofun

section

variable (hctx : ctx.policy = p.toPolicy) (hcandid : (classes o.cls).Candid)
include hctx hcandid

theorem getProperty (name : String) :
    RejectsWith (p.rejection? o.cls name (((classes o.cls).property? name).map (·.member o.cls)))
      (getProperty classes ctx (.object o) name) := by
  refine navigate _ ?_
  simp only [propertyOf, readProperty]
  cases hfound : (classes o.cls).property? name with
  | none => exact fail _
  | some q =>
    have hcls : (q.member o.cls).cls = o.cls := by cases q <;> rfl
    exact reach hctx hcls name (hcandid.reading hfound o.handle)

theorem callMethod (name : String) (args : List Value) :
    RejectsWith (p.rejection? o.cls name (((classes o.cls).method? name).map (·.member o.cls name)))
      (callMethod classes ctx (.object o) name args) := by
  refine navigate _ ?_
  simp only [resultOf]
  cases hfound : (classes o.cls).method? name with
  | none => exact fail _
  | some m => exact reach hctx rfl name (hcandid.invoking hfound o.handle args)

end
end RejectsWith

/-! ## Rejections of generation -/

/-- The rendering fails with that rejection, and never otherwise. -/
def FailsWith (whole : Expr) (rejection : Option EvalError)
    (rendered : Except GenerationError Fragment) : Prop :=
  ∀ error, rendered = .error error ↔ ∃ e, rejection = some e ∧ error = .failed whole e

/-- What a check with that rejection comes to. -/
def checkResult (whole : Expr) : Option EvalError → Except GenerationError Unit
  | some e => .error (.failed whole e)
  | none => .ok ()

namespace FailsWith

variable {classes : Registry σ} {p : VisibilityPolicy} {s : Session σ} {o : ObjectRef}

/-- After the check of its member, a rendering that navigates cannot fail. -/
theorem navigating {whole : Expr} {rejection : Option EvalError} {check : Generation σ Unit}
    (fragment : Fragment → Fragment) (h : (check s).1 = checkResult whole rejection) :
    FailsWith whole rejection ((check >>= fun _ => navigating fragment) s).1 := by
  intro error
  cases rejection with
  | none =>
    have hrun : check s = (.ok (), (check s).2) := Prod.ext h rfl
    rw [Action.bind_of_ok hrun]
    exact iff_of_false nofun nofun
  | some e =>
    have hrun : check s = (.error (.failed whole e), (check s).2) := Prod.ext h rfl
    rw [Action.bind_of_error hrun]
    simp [eq_comm]

section

variable (hpolicy : s.context.policy = p.toPolicy)
include hpolicy

/-- The check of a member tells the name that was asked for. -/
theorem checkAccess (whole : Expr) (member : Member) (name : String) :
    (checkAccess whole o member name s).1 =
      checkResult whole (p.rejection? o.cls name (some { member with name })) := by
  cases hpermits : p.permits member.visibility <;>
    simp [Generation.checkAccess, Action.bind_apply, Session.reading, Policy.ask_apply, hpolicy,
      VisibilityPolicy.toPolicy, VisibilityPolicy.rejection?, checkResult, hpermits]

theorem property (name : String) :
    FailsWith (.property name) (p.rejection? o.cls name
        ((((classes o.cls).property? name).map (·.member o.cls)).map ({ · with name })))
      ((Expr.property name).generate classes (.object o) s).1 := by
  refine navigating (fun here => .property here name) ?_
  simp only [checkProperty]
  cases (classes o.cls).property? name with
  | none => rfl
  | some q => exact checkAccess hpolicy (.property name) (q.member o.cls) name

theorem method (name : String) :
    FailsWith (.method name []) (p.rejection? o.cls name
        ((((classes o.cls).method? name).map (·.member o.cls name)).map ({ · with name })))
      ((Expr.method name []).generate classes (.object o) s).1 := by
  refine navigating (fun here => .call here name []) ?_
  simp only [checkMethod]
  cases (classes o.cls).method? name with
  | none => rfl
  | some m => exact checkAccess hpolicy (.method name []) (m.member o.cls name) name

end
end FailsWith

/-! ## Both rejections -/

/-- The rendering of the expression fails exactly with the rejections that the run ends with. -/
def RejectedAlike (whole : Expr) (rendered : Except GenerationError Fragment)
    (run : Except EvalError Value) : Prop :=
  ∀ error, rendered = .error error ↔
    ∃ e, error = .failed whole e ∧ e.isRejection = true ∧ run = .error e

/-- A denied method stands in for the property, under a name of its own. -/
def ClassTable.DeniedGetter (table : ClassTable σ) (p : VisibilityPolicy) (name getter : String) :
    Prop :=
  getter ≠ name ∧ ∃ m, table.property? name = some (.getter getter m) ∧
    p.permits m.visibility = false

theorem rejectedAlike_iff {p : VisibilityPolicy} {cls : ClassRef} {name : String}
    {found : Option Member} {whole : Expr} {rendered : Except GenerationError Fragment}
    {run : Run σ EvalError Value}
    (hrendered : FailsWith whole
      (p.rejection? cls name (found.map ({ · with name }))) rendered)
    (hrun : RejectsWith (p.rejection? cls name found) run) (w : World σ) :
    RejectedAlike whole rendered (run w).1 ↔
      ∀ member, found = some member → p.permits member.visibility = false → name = member.name := by
  rw [← VisibilityPolicy.rejection?_renamed_iff, Option.ext_iff]
  have hends (e : EvalError) : (e.isRejection = true ∧ (run w).1 = .error e) ↔
      p.rejection? cls name found = some e := by
    constructor
    · exact fun ⟨he, herror⟩ => (hrun w e he).1 herror
    · intro h
      have he := VisibilityPolicy.isRejection_of_rejection? h
      exact ⟨he, (hrun w e he).2 h⟩
  simp only [RejectedAlike, hrendered _, hends]
  constructor
  · intro h e
    have hfailed := h (.failed whole e)
    simpa using hfailed
  · intro h error
    simp only [h, and_comm]

/-- A field is denied under the name that was asked for, a method perhaps not. -/
theorem ClassTable.not_exists_deniedGetter_iff {table : ClassTable σ} {p : VisibilityPolicy}
    {name : String} (cls : ClassRef) :
    (¬ ∃ getter, table.DeniedGetter p name getter) ↔
      ∀ member, (table.property? name).map (·.member cls) = some member →
        p.permits member.visibility = false → name = member.name := by
  cases hfound : table.property? name with
  | none => simp [DeniedGetter, hfound]
  | some q =>
    obtain ⟨f, -, rfl⟩ | ⟨getter, m, -, rfl⟩ := property?_eq_some hfound
    · simp [DeniedGetter, hfound, Property.member, Field.member]
    · have hmember : (Property.getter getter m).member cls = m.member cls getter := rfl
      simp only [DeniedGetter, hfound, Option.map_some, hmember, Option.some.injEq, forall_eq',
        Property.getter.injEq]
      constructor
      · intro hnone hdenied
        exact Classical.byContradiction fun hne =>
          hnone ⟨getter, Ne.symm hne, m, ⟨rfl, rfl⟩, hdenied⟩
      · rintro hname ⟨_, hne, _, ⟨rfl, rfl⟩, hdenied⟩
        exact hne (hname hdenied).symm

/-- Under a policy with one switch for each visibility, and as long as the code of the class does
not itself end in such an error, generation fails for a property of a host object exactly with the
rejections of reading it, unless a denied getter stands in for the property: then generation tells
the name of the property and reading that of the getter. For a call without arguments there is no
exception. -/
theorem rejections_agree_iff_no_denied_getter (classes : Registry σ) {p : VisibilityPolicy}
    (s : Session σ) (hpolicy : s.context.policy = p.toPolicy) (o : ObjectRef)
    (hcandid : (classes o.cls).Candid) (name : String) (w : World σ) :
    let rendered (e : Expr) := (e.generate classes (.object o) s).1
    let read := (getProperty classes s.context (.object o) name w).1
    let called := (callMethod classes s.context (.object o) name [] w).1
    (RejectedAlike (.property name) (rendered (.property name)) read ↔
        ¬ ∃ getter, (classes o.cls).DeniedGetter p name getter) ∧
      (∀ getter, (classes o.cls).DeniedGetter p name getter →
        rendered (.property name) =
            .error (.failed (.property name) (.inaccessible o.cls.name name)) ∧
          read = .error (.inaccessible o.cls.name getter)) ∧
      RejectedAlike (.method name []) (rendered (.method name [])) called := by
  intro rendered read called
  have hrendered : FailsWith (.property name) _ (rendered (.property name)) :=
    .property hpolicy name
  have hread := RejectsWith.getProperty hpolicy hcandid name
  refine ⟨?_, ?_, ?_⟩
  · rw [ClassTable.not_exists_deniedGetter_iff o.cls]
    exact rejectedAlike_iff hrendered hread w
  · rintro getter ⟨-, m, hfound, hdenied⟩
    have hmember : ((classes o.cls).property? name).map (·.member o.cls) =
        some (m.member o.cls getter) := by
      rw [hfound]
      rfl
    rw [hmember] at hrendered hread
    constructor
    · exact (hrendered _).2 ⟨_, by simp [VisibilityPolicy.rejection?, Method.member, hdenied], rfl⟩
    · exact (hread w _ rfl).2 (by simp [VisibilityPolicy.rejection?, Method.member, hdenied])
  · refine (rejectedAlike_iff (.method hpolicy name) (.callMethod hpolicy hcandid name []) w).2 ?_
    simp [Method.member]

/-- The private method `get_pin` is the property `pin`: generation names the property, reading the
method. -/
theorem denied_getter_named_differently :
    let vault : ClassTable Int64 :=
      .build [.method "get_pin" .isPrivate 0 fun _ _ n => (.ok (.integer n), n)]
    let o : ObjectRef := ⟨⟨0, "Vault"⟩, "v"⟩
    let s : Session Int64 := ⟨Context.new (.object o), World.start 7⟩
    ((Expr.property "pin").generate (fun _ => vault) (.object o) s).1 =
        .error (.failed (.property "pin") (.inaccessible "Vault" "pin")) ∧
      (getProperty (fun _ => vault) s.context (.object o) "pin" s.world).1 =
        .error (.inaccessible "Vault" "get_pin") :=
  ⟨rfl, rfl⟩

/-- The private field of the vault is rejected alike; its private getter is named differently. -/
theorem rejections_agree_for_private_field :
    let vault : ClassTable Int64 :=
      .build [.field "code" .isPrivate fun _ n => (.ok (.integer n), n),
        .method "get_pin" .isPrivate 0 fun _ _ n => (.ok (.integer n), n)]
    let classes : Registry Int64 := fun _ => vault
    let o : ObjectRef := ⟨⟨0, "Vault"⟩, "v"⟩
    let s : Session Int64 := ⟨Context.new (.object o), World.start 7⟩
    vault.Candid ∧
      RejectedAlike (.property "code") ((Expr.property "code").generate classes (.object o) s).1
        (getProperty classes s.context (.object o) "code" s.world).1 ∧
      (getProperty classes s.context (.object o) "pin" s.world).1 =
        .error (.inaccessible "Vault" "get_pin") := by
  intro vault classes o s
  have hcandid : vault.Candid := ClassTable.candid_build fun r hmem => by
    simp only [List.mem_cons, List.not_mem_nil, or_false] at hmem
    obtain rfl | rfl := hmem
    · exact fun _ _ _ => nofun
    · exact fun _ _ _ _ => nofun
  have hagree := rejections_agree_iff_no_denied_getter classes s rfl o hcandid "code" s.world
  have hdiffer := rejections_agree_iff_no_denied_getter classes s rfl o hcandid "pin" s.world
  refine ⟨hcandid, hagree.1.2 ?_, (hdiffer.2.1 "get_pin" ⟨by decide, _, rfl, rfl⟩).2⟩
  rintro ⟨getter, -, m, hfound, -⟩
  cases hfound

end ObjectGraph
