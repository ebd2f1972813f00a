import Mathlib.Logic.Relation
import ObjectGraph.Proofs.Effect
import ObjectGraph.Proofs.Gate

/-!
# Live grants

Several contexts may hold elevations of one member at a time and hand them back in any order,
while the host sets flags and whole evaluations go on in between. In every state that can be
reached so, the counter of a member is the number of its elevations that are out, and each of them
can be handed back. A whole evaluation is itself made of such steps, so the restores within it do
not fail either.
-/
namespace ObjectGraph

variable {σ α : Type}

/-! ## Elevation and release of counters -/

namespace Shared

variable {s : Shared σ} {m : Member}

theorem flag_elevate (n : Member) : ((s.elevate m).grants n).flag = (s.grants n).flag := by
  by_cases h : n = m
  · simp [elevate, h]
  · rw [elevate, setGrant_of_ne s _ h]

theorem toNat_elevate (hmax : (s.grants m).elevations.toNat + 1 < UInt64.size) (n : Member) :
    ((s.elevate m).grants n).elevations.toNat =
      (s.grants n).elevations.toNat + if n = m then 1 else 0 := by
  by_cases h : n = m
  · subst h
    rw [elevate, setGrant_same, if_pos rfl, UInt64.toNat_add]
    exact Nat.mod_eq_of_lt hmax
  · rw [elevate, setGrant_of_ne s _ h, if_neg h, Nat.add_zero]

/-- A counter that is not at zero can be lowered. -/
theorem revoke_of_pos (hpos : 0 < (s.grants m).elevations.toNat) :
    (s.revoke m).1 = .ok () ∧ ∀ n, ((s.revoke m).2.grants n).elevations.toNat +
      (if n = m then 1 else 0) = (s.grants n).elevations.toNat := by
  have hne : (s.grants m).elevations ≠ 0 := by
    intro hzero
    rw [hzero] at hpos
    exact absurd hpos (by decide)
  rw [revoke, if_neg hne]
  refine ⟨rfl, fun n => ?_⟩
  by_cases h : n = m
  · subst h
    have hone : (1 : UInt64).toNat ≤ (s.grants n).elevations.toNat := hpos
    rw [setGrant_same, if_pos rfl, UInt64.toNat_sub_of_le _ _ (UInt64.le_iff_toNat_le.2 hone)]
    exact Nat.sub_add_cancel hone
  · rw [setGrant_of_ne s _ h, if_neg h, Nat.add_zero]

theorem elevations_setFlag (flag : Bool) (n : Member) :
    ((s.setFlag m flag).grants n).elevations = (s.grants n).elevations := by
  by_cases h : n = m
  · simp [setFlag, h]
  · rw [setFlag, setGrant_of_ne s _ h]

end Shared

/-! ## Loans -/

/-- What was handed out and has to come back: the token of a setup, or a scope, which goes back
to the policy that it was entered under. -/
inductive Loan
  | token (elevation : Elevation)
  | scope (p : VisibilityPolicy) (b : Bindings) (scope : Scope)

namespace Loan

def held? : Loan → Option Elevation
  | token elevation => some elevation
  | scope _ _ s => s.held

/-- Whether the loan is a grant of that member. -/
def grants (m : Member) (loan : Loan) : Bool :=
  loan.held?.any fun elevation => elevation.token.isElevated && elevation.access.member = m

/-- The loan can be handed back: a token through any context, for any target and under any name
but with its own member; a scope by its release or at its end. -/
def Returns (w : World σ) : Loan → Prop
  | token elevation => ∀ (p : VisibilityPolicy) (b : Bindings) (access : Access),
      access.member = elevation.access.member →
        (Elevation.release p.toPolicy b ⟨access, elevation.token⟩ w).1 = .ok ()
  | scope p b s => (s.release p.toPolicy b w).1 = .ok () ∧
      ((s.restore p.toPolicy b : Run σ EvalError _) w).1 = .ok (.ok (), ⟨none⟩)

end Loan

/-- How many grants of the member are out. -/
def liveGrants (loans : List Loan) (m : Member) : Nat := loans.countP (Loan.grants m)

@[simp] theorem liveGrants_nil (m : Member) : liveGrants [] m = 0 := rfl

theorem liveGrants_cons (loan : Loan) (loans : List Loan) (m : Member) :
    liveGrants (loan :: loans) m = liveGrants loans m + if loan.grants m then 1 else 0 :=
  List.countP_cons

theorem liveGrants_middle (before after : List Loan) (loan : Loan) (m : Member) :
    liveGrants (before ++ loan :: after) m =
      liveGrants (before ++ after) m + if loan.grants m then 1 else 0 := by
  simp only [liveGrants, List.countP_append, List.countP_cons]
  omega

/-! ## Lending -/

/-- An event that tells of a setup or of a restore. -/
def Event.ofElevation : Event → Bool
  | setUp _ _ _ => true
  | restored _ _ => true
  | _ => false

theorem Event.ofElevation_of_isRemark {event : Event} (h : event.isRemark = true) :
    event.ofElevation = false := by
  cases event with
  | navigated | substituted | assigning => rfl
  | _ => cases h

/-- Whatever was done, flags and counters are as before, and nothing was set up or restored. -/
structure World.Spares (w w' : World σ) : Prop where
  grants : w'.grants = w.grants
  grows : w.GrowsBy (fun event => event.ofElevation = false) w'

namespace World.Spares

variable {w w' : World σ}

theorem refl (w : World σ) : w.Spares w := ⟨rfl, .refl w⟩

theorem record (h : w.Spares w') {event : Event} (hevent : event.ofElevation = false) :
    w.Spares (w'.record event) := ⟨h.grants, h.grows.record hevent⟩

theorem withHost (h : w.Spares w') (host : σ) : w.Spares { w' with host } := ⟨h.grants, h.grows⟩

end World.Spares

/-- A host and what it has lent. -/
structure Lending (σ : Type) where
  world : World σ
  loans : List Loan

namespace Lending

/-- No member has so many grants out that its counter overflows. -/
def Bounded (s : Lending σ) : Prop := ∀ m, liveGrants s.loans m < UInt64.size

/-- The single steps, each by some context under a policy of switches. A loan that is handed back,
whichever it is, is out no more. -/
inductive Move : Lending σ → Lending σ → Prop
  | setUp {w w' : World σ} {loans : List Loan} {elevation : Elevation} (p : VisibilityPolicy)
      (b : Bindings) (access : Access)
      (h : (Elevation.enter p.toPolicy b access : Run σ EvalError _) w = (.ok elevation, w')) :
      Move ⟨w, loans⟩ ⟨w', .token elevation :: loans⟩
  | enter {w w' : World σ} {loans : List Loan} {scope : Scope} (p : VisibilityPolicy)
      (b : Bindings) (access : Access)
      (h : (Scope.enter p.toPolicy b access : Run σ EvalError _) w = (.ok scope, w')) :
      Move ⟨w, loans⟩ ⟨w', .scope p b scope :: loans⟩
  | restore {w : World σ} {before after : List Loan} {elevation : Elevation}
      (p : VisibilityPolicy) (b : Bindings) (access : Access)
      (hmember : access.member = elevation.access.member) :
      Move ⟨w, before ++ .token elevation :: after⟩
        ⟨(Elevation.release p.toPolicy b ⟨access, elevation.token⟩ w).2, before ++ after⟩
  | release {w : World σ} {before after : List Loan} {p : VisibilityPolicy} {b : Bindings}
      {scope : Scope} :
      Move ⟨w, before ++ .scope p b scope :: after⟩
        ⟨(scope.release p.toPolicy b w).2, before ++ after⟩
  | drop {w : World σ} {before after : List Loan} {p : VisibilityPolicy} {b : Bindings}
      {scope : Scope} :
      Move ⟨w, before ++ .scope p b scope :: after⟩
        ⟨((scope.drop p.toPolicy b : Run σ EvalError _) w).2, before ++ after⟩
  | setFlag {w : World σ} {loans : List Loan} (m : Member) (flag : Bool) :
      Move ⟨w, loans⟩ ⟨{ w with toShared := w.toShared.setFlag m flag }, loans⟩
  | act {w w' : World σ} {loans : List Loan} (h : w.Spares w') : Move ⟨w, loans⟩ ⟨w', loans⟩

/-! ## The counters tell what is out -/

/-- Every counter is the number of the member's grants that are out, and what is out came from a
setup. -/
structure Sound (s : Lending σ) : Prop where
  counts (m : Member) : (s.world.grants m).elevations.toNat = liveGrants s.loans m
  held {loan : Loan} : loan ∈ s.loans →
    ∃ elevation, loan.held? = some elevation ∧ elevation.token ≠ .elevated true

namespace Sound

theorem start (host : σ) : (⟨World.start host, []⟩ : Lending σ).Sound where
  counts _ := rfl
  held h := absurd h List.not_mem_nil

theorem withGrants {s : Lending σ} (h : s.Sound) {w : World σ}
    (hw : ∀ m, (w.grants m).elevations = (s.world.grants m).elevations) :
    (⟨w, s.loans⟩ : Lending σ).Sound where
  counts m := by rw [hw m, h.counts m]
  held := h.held

/-- Setup raises the counter exactly when its token tells of an elevation. -/
theorem lend {w w' : World σ} {loans : List Loan} {loan : Loan} {p : VisibilityPolicy}
    {access : Access} (h : (⟨w, loans⟩ : Lending σ).Sound)
    (hheld : loan.held? = some ⟨access, (p.setup access w.toShared).1⟩)
    (hw : w'.toShared = (p.setup access w.toShared).2)
    (hbound : (⟨w', loan :: loans⟩ : Lending σ).Bounded) :
    (⟨w', loan :: loans⟩ : Lending σ).Sound := by
  have hgrants : ∀ m, (w'.grants m).elevations.toNat = liveGrants (loan :: loans) m ∧
      (p.setup access w.toShared).1 ≠ .elevated true := by
    intro m
    rw [liveGrants_cons, Loan.grants, hheld, ← h.counts m, show w'.grants = _ from
      congrArg Shared.grants hw]
    unfold VisibilityPolicy.setup
    split
    · simp [Token.isElevated]
    · rename_i hopen
      have hmax := hbound access.member
      rw [liveGrants_cons, Loan.grants, hheld, ← h.counts access.member,
        VisibilityPolicy.setup, if_neg hopen] at hmax
      simp only [Option.any_some, Token.isElevated, decide_true, Bool.and_self, if_true] at hmax
      rw [Shared.toNat_elevate hmax m]
      simp [Token.isElevated, eq_comm]
  constructor
  · exact fun m => (hgrants m).1
  · intro other hmem
    rcases List.mem_cons.1 hmem with rfl | hmem
    · exact ⟨_, hheld, (hgrants access.member).2⟩
    · exact h.held hmem

/-- What is out can be handed back, and then it no longer counts. -/
theorem handBack {w : World σ} {before after : List Loan} {loan : Loan} {elevation : Elevation}
    {access : Access} (h : (⟨w, before ++ loan :: after⟩ : Lending σ).Sound)
    (hheld : loan.held? = some elevation) (hmember : access.member = elevation.access.member) :
    (VisibilityPolicy.restore access elevation.token w.toShared).1 = .ok () ∧
      ∀ w' : World σ,
        w'.toShared = (VisibilityPolicy.restore access elevation.token w.toShared).2 →
          (⟨w', before ++ after⟩ : Lending σ).Sound := by
  have hmem : loan ∈ before ++ loan :: after := by simp
  have hrest : ∀ other ∈ before ++ after, other ∈ before ++ loan :: after := by
    intro other hother
    rcases List.mem_append.1 hother with hother | hother <;> simp [hother]
  have hcounts (m : Member) := (h.counts m).trans (liveGrants_middle before after loan m)
  obtain ⟨_, hheld', htoken⟩ := h.held hmem
  rw [hheld] at hheld'
  cases hheld'
  cases hform : elevation.token with
  | unchanged =>
    refine ⟨rfl, fun w' hw' => ⟨fun m => ?_, fun hother => h.held (hrest _ hother)⟩⟩
    rw [show w'.grants = w.grants from congrArg Shared.grants hw', hcounts m]
    simp [Loan.grants, hheld, hform, Token.isElevated]
  | elevated wasAccessible =>
    cases wasAccessible with
    | true => exact absurd hform htoken
    | false =>
      have hgrant (m : Member) : loan.grants m = decide (elevation.access.member = m) := by
        simp [Loan.grants, hheld, hform, Token.isElevated]
      have hpos : 0 < (w.grants access.member).elevations.toNat := by
        rw [hcounts, hgrant, hmember]
        simp
      obtain ⟨hok, hlower⟩ := Shared.revoke_of_pos hpos
      refine ⟨hok, fun w' hw' => ⟨fun m => ?_, fun hother => h.held (hrest _ hother)⟩⟩
      have hm := hlower m
      rw [hcounts m, hgrant m, ← hmember] at hm
      rw [show w'.grants = _ from congrArg Shared.grants hw']
      simp only [decide_eq_true_eq, eq_comm (a := access.member)] at hm
      exact Nat.add_right_cancel hm

theorem scope_eq {s : Lending σ} (h : s.Sound) {p : VisibilityPolicy} {b : Bindings}
    {scope : Scope} (hmem : .scope p b scope ∈ s.loans) :
    ∃ elevation, scope = ⟨some elevation⟩ := by
  obtain ⟨elevation, hheld, -⟩ := h.held hmem
  exact ⟨elevation, congrArg Scope.mk hheld⟩

theorem move {s s' : Lending σ} (h : s.Sound) (hmove : s.Move s') (hbound : s'.Bounded) :
    s'.Sound := by
  cases hmove with
  | setUp p b access hrun =>
    cases hrun
    exact h.lend rfl rfl hbound
  | enter p b access hrun =>
    cases hrun
    exact h.lend rfl rfl hbound
  | restore p b access hmember => exact (h.handBack rfl hmember).2 _ rfl
  | @release w before after p b scope =>
    obtain ⟨elevation, rfl⟩ := h.scope_eq (List.mem_append_right before List.mem_cons_self)
    exact (h.handBack rfl rfl).2 _ rfl
  | @drop w before after p b scope =>
    obtain ⟨elevation, rfl⟩ := h.scope_eq (List.mem_append_right before List.mem_cons_self)
    exact (h.handBack rfl rfl).2 _ rfl
  | setFlag m flag => exact h.withGrants fun n => Shared.elevations_setFlag flag n
  | act hspares => exact h.withGrants fun m => by rw [hspares.grants]

/-- Nothing that is out fails to go back. -/
theorem returns {s : Lending σ} (h : s.Sound) {loan : Loan} (hmem : loan ∈ s.loans) :
    loan.Returns s.world := by
  obtain ⟨before, after, hsplit⟩ := List.append_of_mem hmem
  have hs : (⟨s.world, before ++ loan :: after⟩ : Lending σ).Sound := hsplit ▸ h
  cases loan with
  | token elevation => exact fun p b access hmember => (hs.handBack rfl hmember).1
  | scope p b scope =>
    obtain ⟨elevation, rfl⟩ := h.scope_eq hmem
    have hok : (VisibilityPolicy.restore elevation.access elevation.token s.world.toShared).1 =
        .ok () := (hs.handBack rfl rfl).1
    refine ⟨hok, ?_⟩
    change (Except.ok ((VisibilityPolicy.restore elevation.access elevation.token _).1, _)) = _
    rw [hok]

theorem canAccess_iff {s : Lending σ} (h : s.Sound) (m : Member) :
    (s.world.grants m).canAccess = true ↔
      (s.world.grants m).flag = true ∨ 0 < liveGrants s.loans m := by
  rw [Accessibility.canAccess, Bool.or_eq_true, decide_eq_true_eq, UInt64.lt_iff_toNat_lt,
    h.counts m]
  rfl

end Sound

/-! ## Whole evaluations -/

/-- Single steps, none of which takes a counter over its limit. -/
def Moves : Lending σ → Lending σ → Prop :=
  Relation.ReflTransGen fun s s' => s.Move s' ∧ s'.Bounded

theorem Sound.moves {s s' : Lending σ} (h : s.Sound) (hmoves : s.Moves s') : s'.Sound := by
  induction hmoves with
  | refl => exact h
  | tail _ hstep ih => exact ih.move hstep.1 hstep.2

end Lending

/-- The member was elevated between the two worlds. -/
def World.Elevates (w w' : World σ) (m : Member) : Prop :=
  ∃ new, w'.trail.toList = w.trail.toList ++ new ∧
    ∃ access flag, Event.setUp access (.elevated false) flag ∈ new ∧ access.member = m

namespace World.Elevates

variable {w w' w'' : World σ} {m : Member} {P : Event → Prop}

theorem before (h : w.Elevates w' m) (hgrows : w'.GrowsBy P w'') : w.Elevates w'' m := by
  obtain ⟨new, htrail, access, flag, hmem, hm⟩ := h
  obtain ⟨new', htrail', -⟩ := hgrows
  refine ⟨new ++ new', by rw [htrail', htrail, List.append_assoc], access, flag, ?_, hm⟩
  exact List.mem_append_left new' hmem

theorem after (hgrows : w.GrowsBy P w') (h : w'.Elevates w'' m) : w.Elevates w'' m := by
  obtain ⟨new, htrail, -⟩ := hgrows
  obtain ⟨new', htrail', access, flag, hmem, hm⟩ := h
  refine ⟨new ++ new', by rw [htrail', htrail, List.append_assoc], access, flag, ?_, hm⟩
  exact List.mem_append_right new hmem

end World.Elevates

namespace Effect

open Lending

/-- Whatever else is out, the run is made of single steps and hands back what it takes, if there is
room for what it takes. -/
def stepwise : Effect σ := fun w _ w' =>
  w.GrowsBy (fun _ => True) w' ∧ ∀ loans, (⟨w, loans⟩ : Lending σ).Bounded →
    (∀ m, w.Elevates w' m → liveGrants loans m + 1 < UInt64.size) → Moves ⟨w, loans⟩ ⟨w', loans⟩

theorem stepwise_of_spares {w w' : World σ} {e : Option EvalError} (h : w.Spares w') :
    stepwise w e w' := by
  obtain ⟨new, htrail, -⟩ := h.grows
  exact ⟨⟨new, htrail, fun _ _ => trivial⟩, fun _ hbound _ => .single ⟨.act h, hbound⟩⟩

/-- An access under elevation enters a scope, reaches the member and releases the scope. -/
theorem moves_of_elevated {p : VisibilityPolicy} (b : Bindings) {access : Access}
    (attempt : Attempt σ α) (w : World σ) {loans : List Loan}
    (hp : p.permits access.member.visibility = true)
    (hflag : (w.grants access.member).flag = false) (hbound : (⟨w, loans⟩ : Lending σ).Bounded)
    (hroom : liveGrants loans access.member + 1 < UInt64.size) :
    Moves ⟨w, loans⟩ ⟨(elevated p.toPolicy b access attempt w).2, loans⟩ := by
  let scope : Scope := ⟨some ⟨access, .elevated false⟩⟩
  let asked : World σ := w.record (.asked access true false)
  let lent : World σ := { w.toShared.elevate access.member with
    trail := asked.trail.push (.setUp access (.elevated false) false) }
  let used : World σ := { lent with host := attempt.hostAfter w.host }.record
    (.reached access attempt.call (attempt.endingAt w.host))
  have henter : (Scope.enter p.toPolicy b access : Run σ EvalError _) asked =
      (.ok scope, lent) := by
    have hsetup : p.toPolicy.setup b access asked.toShared =
        (.elevated false, w.toShared.elevate access.member) := by
      simp [VisibilityPolicy.toPolicy, VisibilityPolicy.setup, World.record, asked, hp, hflag]
    rw [Scope.enter_apply, hsetup, Shared.flag_elevate, hflag]
  have hlent : (⟨lent, .scope p b scope :: loans⟩ : Lending σ).Bounded := by
    intro m
    rw [liveGrants_cons]
    by_cases hm : access.member = m
    · subst hm
      split <;> omega
    · have hother : (Loan.scope p b scope).grants m = false := by
        simp [Loan.grants, Loan.held?, scope, hm]
      simpa [hother] using hbound m
  have hworld : (elevated p.toPolicy b access attempt w).2 =
      (scope.release p.toPolicy b used).2 := by
    rw [p.elevated_of_unflagged b attempt w hp hflag, Scope.release_apply]
    rfl
  rw [hworld]
  have hask : Moves ⟨w, loans⟩ ⟨asked, loans⟩ :=
    .single ⟨.act ((World.Spares.refl w).record rfl), hbound⟩
  have hlend : Moves ⟨w, loans⟩ ⟨lent, .scope p b scope :: loans⟩ :=
    hask.tail ⟨.enter p b access henter, hlent⟩
  have huse : Moves ⟨w, loans⟩ ⟨used, .scope p b scope :: loans⟩ :=
    hlend.tail ⟨.act (((World.Spares.refl lent).withHost _).record rfl), hlent⟩
  exact huse.tail ⟨@Move.release _ used [] loans p b scope, hbound⟩

theorem stepwise_elevated (p : VisibilityPolicy) (b : Bindings) (access : Access)
    (attempt : Attempt σ α) : stepwise.Of (elevated p.toPolicy b access attempt) := by
  intro w
  cases hp : p.permits access.member.visibility with
  | false =>
    rw [p.elevated_of_denied b attempt w hp]
    exact stepwise_of_spares ((World.Spares.refl w).record rfl)
  | true =>
    cases hflag : (w.grants access.member).flag with
    | true =>
      rw [p.elevated_of_flagged b attempt w hp hflag, attempt.perform_apply]
      exact stepwise_of_spares ((((World.Spares.refl w).record rfl).withHost _).record rfl)
    | false =>
      have htrail := (congrArg (fun run => run.2.trail.toList)
        (p.elevated_of_unflagged b attempt w hp hflag)).trans Array.toList_append
      refine ⟨⟨_, htrail, fun _ _ => trivial⟩, fun loans hbound hroom => ?_⟩
      refine moves_of_elevated b attempt w hp hflag hbound (hroom access.member ?_)
      exact ⟨_, htrail, access, false, by simp, rfl⟩

theorem lasting_stepwise (p : VisibilityPolicy) : Lasting p.toPolicy (stepwise : Effect σ) where
  refl w := stepwise_of_spares (.refl w)
  trans {w w' w'' e} := by
    rintro ⟨hgrows, hmoves⟩ ⟨hgrows', hmoves'⟩
    refine ⟨hgrows.trans hgrows', fun loans hbound hroom => ?_⟩
    refine (hmoves loans hbound fun m hm => hroom m (hm.before hgrows')).trans ?_
    exact hmoves' loans hbound fun m hm => hroom m (.after hgrows hm)
  fail w _ _ := stepwise_of_spares (.refl w)
  remark {w w' e} := by
    rintro ⟨hgrows, hmoves⟩ event hevent
    have hmore : w'.Spares (w'.record event) :=
      (World.Spares.refl w').record (Event.ofElevation_of_isRemark hevent)
    refine ⟨hgrows.record trivial, fun loans hbound hroom => ?_⟩
    have hbefore := hmoves loans hbound fun m hm => hroom m (hm.before hmore.grows)
    exact hbefore.tail ⟨.act hmore, hbound⟩
  host w host := stepwise_of_spares ((World.Spares.refl w).withHost host)
  ask b access w := stepwise_of_spares ((World.Spares.refl w).record rfl)
  reach b access _ attempt _ := stepwise_elevated p b access attempt

end Effect

/-- Whole evaluations, assignments and generations by some context under a policy of switches,
however they end. -/
inductive WholeRun (classes : Registry σ) : World σ → World σ → Prop
  | evaluate {ctx : Context σ} {p : VisibilityPolicy} (hctx : ctx.policy = p.toPolicy) (e : Expr)
      (here : Value) (w : World σ) : WholeRun classes w (e.evaluate classes ctx here w).2
  | assign {s : Session σ} {p : VisibilityPolicy} (hs : s.context.policy = p.toPolicy) (e : Expr)
      (here value : Value) : WholeRun classes s.world (e.assign classes here value s).2.world
  | generate {s : Session σ} {p : VisibilityPolicy} (hs : s.context.policy = p.toPolicy) (e : Expr)
      (target : Value) : WholeRun classes s.world (e.generate classes target s).2.world

namespace Lending

variable {classes : Registry σ}

theorem moves_of_wholeRun {w w' : World σ} {loans : List Loan} (h : WholeRun classes w w')
    (hbound : (⟨w, loans⟩ : Lending σ).Bounded)
    (hroom : ∀ m, w.Elevates w' m → liveGrants loans m + 1 < UInt64.size) :
    Moves ⟨w, loans⟩ ⟨w', loans⟩ := by
  cases h with
  | @evaluate ctx p hctx e here =>
    exact ((Effect.lasting_stepwise p).evaluate hctx e here w).2 loans hbound hroom
  | @assign s p hs e here value =>
    exact ((Effect.lasting_stepwise p).assign e here value s hs).2.2 loans hbound hroom
  | @generate s p hs e target =>
    exact ((Effect.lasting_stepwise p).generate e target s hs).2.2 loans hbound hroom

/-- The states that freshly built classes can come to, by single steps and by whole runs, as long
as fewer grants of a member are out than its counter can count. -/
inductive Reachable (classes : Registry σ) : Lending σ → Prop
  | start (host : σ) : Reachable classes ⟨World.start host, []⟩
  | move {s s' : Lending σ} (h : Reachable classes s) (hmove : s.Move s') (hbound : s'.Bounded) :
      Reachable classes s'
  /-- What the run itself elevates counts while it is out. -/
  | run {s : Lending σ} {w : World σ} (h : Reachable classes s) (hrun : WholeRun classes s.world w)
      (hroom : ∀ m, s.world.Elevates w m → liveGrants s.loans m + 1 < UInt64.size) :
      Reachable classes ⟨w, s.loans⟩

namespace Reachable

variable {s s' : Lending σ}

theorem bounded (h : Reachable classes s) : s.Bounded := by
  induction h with
  | start host => exact fun _ => show 0 < UInt64.size by decide
  | move _ _ hbound _ => exact hbound
  | run _ _ _ ih => exact ih

theorem sound (h : Reachable classes s) : s.Sound := by
  induction h with
  | start host => exact .start host
  | move _ hmove hbound ih => exact ih.move hmove hbound
  | run h hrun hroom ih => exact ih.moves (moves_of_wholeRun hrun h.bounded hroom)

theorem moves (h : Reachable classes s) (hmoves : s.Moves s') : Reachable classes s' := by
  induction hmoves with
  | refl => exact h
  | tail _ hstep ih => exact ih.move hstep.1 hstep.2

/-- Every state on the way can be reached. -/
theorem along (h : Reachable classes s) (hmoves : s.Moves s') :
    Relation.ReflTransGen (fun t t' => t.Move t' ∧ Reachable classes t') s s' := by
  induction hmoves with
  | refl => exact .refl
  | tail hbefore hstep ih => exact ih.tail ⟨hstep.1, (h.moves hbefore).move hstep.1 hstep.2⟩

end Reachable
end Lending

/-- In every state that freshly built classes can come to, however setups, scopes, restores,
releases, flags and whole runs of any contexts follow each other: the counter of a member is the
number of its grants that are out, the member can be accessed when its flag is set or that number
is positive, everything that is out can be handed back, and when nothing is out, only the flag
counts. A whole run from there is made of such steps through such states, with every setup and
every restore in it among them, so within it, too, every restore goes well. -/
theorem elevations_count_live_grants {classes : Registry σ} {s : Lending σ}
    (h : s.Reachable classes) :
    (∀ m, (s.world.grants m).elevations.toNat = liveGrants s.loans m ∧
      ((s.world.grants m).canAccess = true ↔
        (s.world.grants m).flag = true ∨ 0 < liveGrants s.loans m)) ∧
    (∀ loan ∈ s.loans, loan.Returns s.world) ∧
    (s.loans = [] → ∀ m, (s.world.grants m).canAccess = (s.world.grants m).flag) ∧
    (∀ w, WholeRun classes s.world w →
      (∀ m, s.world.Elevates w m → liveGrants s.loans m + 1 < UInt64.size) →
        Relation.ReflTransGen (fun t t' => t.Move t' ∧ t'.Reachable classes) s ⟨w, s.loans⟩) := by
  refine ⟨fun m => ⟨h.sound.counts m, h.sound.canAccess_iff m⟩, fun loan => h.sound.returns,
    fun hnone m => ?_, fun w hrun hroom => ?_⟩
  · have hiff := h.sound.canAccess_iff m
    rw [hnone, liveGrants_nil] at hiff
    exact Bool.eq_iff_iff.2 (by simpa using hiff)
  · exact h.along (Lending.moves_of_wholeRun hrun h.bounded hroom)

/-- A scope and a token of one private member overlap, an evaluation reads the member meanwhile,
the host then flags it, and a context that allows nothing hands the token back. -/
theorem elevations_count_live_grants_overlapping :
    let safe : ClassTable Unit :=
      ClassTable.build [.field "code" .isPrivate fun _ => pure (.integer 42)]
    let code : Member := ⟨⟨0, "Safe"⟩, "code", .field, .isPrivate⟩
    let access : Access := ⟨.object ⟨⟨0, "Safe"⟩, "s"⟩, code, "code"⟩
    let allowing : Policy Unit := (VisibilityPolicy.all true).toPolicy
    let ctx : Context Unit := { Context.new access.target with policy := allowing }
    let scope : Scope := ⟨some ⟨access, .elevated false⟩⟩
    let entered := ((Scope.enter allowing ctx.toBindings access : Run Unit EvalError Scope)
      (World.start ())).2
    let setUp := ((Elevation.enter allowing ctx.toBindings access : Run Unit EvalError Elevation)
      entered).2
    let read := ((Expr.property "code").evaluate (fun _ => safe) ctx ctx.root setUp).2
    let flagged : World Unit := { read with toShared := read.toShared.setFlag code true }
    let restored := (Elevation.release VisibilityPolicy.publicOnly.toPolicy ctx.toBindings
      ⟨access, .elevated false⟩ flagged).2
    let s : Lending Unit := ⟨restored, [.scope (.all true) ctx.toBindings scope]⟩
    s.Reachable (fun _ => safe) ∧ liveGrants s.loans code = 1 ∧
      (restored.grants code).elevations.toNat = 1 ∧ (restored.grants code).canAccess = true ∧
      (Loan.scope (.all true) ctx.toBindings scope).Returns restored := by
  intro safe code access allowing ctx scope entered setUp read flagged restored s
  let loans : List Loan :=
    [.token ⟨access, .elevated false⟩, .scope (.all true) ctx.toBindings scope]
  have hlive (m : Member) : liveGrants loans m + 1 < UInt64.size :=
    Nat.lt_of_le_of_lt (Nat.succ_le_succ List.countP_le_length) (by decide)
  have hone (m : Member) : liveGrants s.loans m < UInt64.size :=
    Nat.lt_of_le_of_lt List.countP_le_length (by decide)
  have hentered : Lending.Reachable (fun _ => safe) ⟨entered, s.loans⟩ :=
    (Lending.Reachable.start ()).move (.enter (.all true) ctx.toBindings access rfl) hone
  have hsetUp : Lending.Reachable (fun _ => safe) ⟨setUp, loans⟩ :=
    hentered.move (.setUp (.all true) ctx.toBindings access rfl) fun m =>
      Nat.lt_of_succ_lt (hlive m)
  have hread : Lending.Reachable (fun _ => safe) ⟨read, loans⟩ :=
    hsetUp.run (.evaluate (p := .all true) rfl (.property "code") ctx.root setUp) fun m _ => hlive m
  have hflagged : Lending.Reachable (fun _ => safe) ⟨flagged, loans⟩ :=
    hread.move (.setFlag code true) fun m => Nat.lt_of_succ_lt (hlive m)
  have hs : s.Reachable (fun _ => safe) :=
    hflagged.move (@Lending.Move.restore _ flagged [] s.loans ⟨access, .elevated false⟩ .publicOnly
      ctx.toBindings access rfl) hone
  obtain ⟨hcounts, hreturns, -, -⟩ := elevations_count_live_grants hs
  have hcode : liveGrants s.loans code = 1 := by decide
  obtain ⟨hcount, haccess⟩ := hcounts code
  refine ⟨hs, hcode, hcount.trans hcode, haccess.2 (.inr ?_), hreturns _ (List.mem_singleton.2 rfl)⟩
  rw [hcode]
  exact Nat.zero_lt_one

end ObjectGraph
