import ObjectGraph.Proofs.Sequencing

/-!
# The gate to host code

What one passage through `elevated` does under a policy with one switch for each visibility: a
denied member is asked about and left alone, a flagged one is reached directly, any other is
elevated, reached and restored. The trail only ever grows.
-/
namespace ObjectGraph

variable {σ α : Type}

/-! ## Growth of the trail -/

namespace World

/-- The trail was extended by events that all have the property. -/
def GrowsBy (P : Event → Prop) (w w' : World σ) : Prop :=
  ∃ new, w'.trail.toList = w.trail.toList ++ new ∧ ∀ event ∈ new, P event

variable {P : Event → Prop}

theorem GrowsBy.refl (w : World σ) : w.GrowsBy P w := ⟨[], by simp, by simp⟩

theorem GrowsBy.trans {w w' w'' : World σ} (h : w.GrowsBy P w') (h' : w'.GrowsBy P w'') :
    w.GrowsBy P w'' := by
  obtain ⟨new, htrail, hnew⟩ := h
  obtain ⟨new', htrail', hnew'⟩ := h'
  refine ⟨new ++ new', by rw [htrail', htrail, List.append_assoc], ?_⟩
  intro event hmem
  rcases List.mem_append.1 hmem with hmem | hmem
  · exact hnew event hmem
  · exact hnew' event hmem

theorem toList_trail_record (w : World σ) (event : Event) :
    (w.record event).trail.toList = w.trail.toList ++ [event] := Array.toList_push

theorem GrowsBy.record {w w' : World σ} (h : w.GrowsBy P w') {event : Event} (hevent : P event) :
    w.GrowsBy P (w'.record event) := by
  refine h.trans ⟨[event], toList_trail_record w' event, ?_⟩
  intro e he
  rw [List.mem_singleton.1 he]
  exact hevent

end World

/-! ## Attempts -/

namespace Attempt

/-- What an attempt comes to in a state of the host. -/
def resultAt (a : Attempt σ α) (host : σ) : Except EvalError α :=
  match a.outcome with
  | .error e => .error e
  | .ok code => (code host).1

def hostAfter (a : Attempt σ α) (host : σ) : σ :=
  match a.outcome with
  | .error _ => host
  | .ok code => (code host).2

def endingAt (a : Attempt σ α) (host : σ) : Ending :=
  match a.outcome with
  | .error e => .refused e
  | .ok code => .ofResult (code host).1

theorem perform_apply (a : Attempt σ α) (access : Access) (w : World σ) :
    a.perform access w = (a.resultAt w.host,
      { w with host := a.hostAfter w.host }.record
        (.reached access a.call (a.endingAt w.host))) := by
  cases h : a.outcome <;> simp [perform, resultAt, hostAfter, endingAt, h]

/-- An attempt that is properly refused ends in an access error only when its host code did. -/
theorem endingAt_of_access {a : Attempt σ α} (ha : a.Proper) {host : σ} {error : AccessError}
    (h : a.resultAt host = .error (.access error)) :
    a.endingAt host = .failed (.access error) := by
  cases houtcome : a.outcome with
  | error e =>
    simp only [resultAt, houtcome, Except.error.injEq] at h
    exact absurd (h ▸ ha e houtcome) (by simp [EvalError.isAccess])
  | ok code =>
    simp only [resultAt, houtcome] at h
    simp [endingAt, houtcome, h, Ending.ofResult]

end Attempt

/-! ## The ways through the gate -/

section

variable {P : Policy σ} {b : Bindings} {access : Access} {token : Token}
  {released : Except AccessError Unit} {s s' s'' : Shared σ} (attempt : Attempt σ α) (w : World σ)

theorem Policy.ask_apply {ε : Type} (P : Policy σ) (b : Bindings) (access : Access) :
    (P.ask b access : Run σ ε Bool) w =
      (.ok (P.isAccessible b access w.toShared).1,
        { (P.isAccessible b access w.toShared).2 with
          trail := w.trail.push (.asked access (P.isAccessible b access w.toShared).1
            ((P.isAccessible b access w.toShared).2.grants access.member).flag) }) := rfl

theorem Scope.enter_apply {ε : Type} (P : Policy σ) (b : Bindings) (access : Access) :
    (Scope.enter P b access : Run σ ε Scope) w =
      (.ok ⟨some ⟨access, (P.setup b access w.toShared).1⟩⟩,
        { (P.setup b access w.toShared).2 with
          trail := w.trail.push (.setUp access (P.setup b access w.toShared).1
            ((P.setup b access w.toShared).2.grants access.member).flag) }) := rfl

/-- The token goes back once: the end of a released scope finds nothing to release. -/
theorem Scope.release_apply (P : Policy σ) (b : Bindings) (access : Access) (token : Token) :
    Scope.release P b ⟨some ⟨access, token⟩⟩ w =
      ((P.restore b access token w.toShared).1,
        { (P.restore b access token w.toShared).2 with
          trail := w.trail.push (.restored access token) }) := rfl

theorem elevated_of_no (hask : P.isAccessible b access w.toShared = (false, s)) :
    elevated P b access attempt w = (.error access.denied,
      { s with trail := w.trail.push (.asked access false (s.grants access.member).flag) }) := by
  simp [elevated, Action.bind_apply, Policy.ask_apply, hask]

/-- A member that is flagged once the policy has agreed is reached as it is. -/
theorem elevated_of_flag (hask : P.isAccessible b access w.toShared = (true, s))
    (hflag : (s.grants access.member).flag = true) :
    elevated P b access attempt w =
      attempt.perform access { s with trail := w.trail.push (.asked access true true) } := by
  simp [elevated, Action.bind_apply, Policy.ask_apply, hask, flagged, hflag]

theorem elevated_of_lent (hask : P.isAccessible b access w.toShared = (true, s))
    (hflag : (s.grants access.member).flag = false)
    (hsetup : P.setup b access s = (token, s'))
    (hopen : (s'.grants access.member).flag = true ∨ token.isElevated = true)
    (hrestore : P.restore b access token { s' with host := attempt.hostAfter s'.host } =
      (released, s'')) :
    elevated P b access attempt w = (settled (attempt.resultAt s'.host) released,
      { s'' with
        trail := w.trail ++ #[.asked access true false,
          .setUp access token (s'.grants access.member).flag,
          .reached access attempt.call (attempt.endingAt s'.host), .restored access token] }) := by
  simp [elevated, Action.bind_apply, Policy.ask_apply, hask, flagged, hflag, Scope.enter_apply,
    hsetup, Scope.isElevated, hopen, Attempt.perform_apply, World.record, Scope.release_apply,
    hrestore]
  exact Array.ext' (by simp)

/-- Without the flag and without an elevation of its own, the access is not made. -/
theorem elevated_of_withheld (hask : P.isAccessible b access w.toShared = (true, s))
    (hflag : (s.grants access.member).flag = false)
    (hsetup : P.setup b access s = (token, s'))
    (hclosed : (s'.grants access.member).flag = false) (htoken : token.isElevated = false)
    (hrestore : P.restore b access token s' = (released, s'')) :
    elevated P b access attempt w = (.error access.denied,
      { s'' with
        trail := w.trail ++ #[.asked access true false, .setUp access token false,
          .restored access token] }) := by
  simp [elevated, Action.bind_apply, Policy.ask_apply, hask, flagged, hflag, Scope.enter_apply,
    hsetup, Scope.isElevated, hclosed, htoken, Scope.release_apply, hrestore, settled]
  exact Array.ext' (by simp)

end

/-! ## Elevation and release -/

namespace Shared

/-- A release undoes an elevation, whatever the host did in between. -/
theorem revoke_elevate (s : Shared σ) (m : Member) (host : σ)
    (hmax : (s.grants m).elevations + 1 ≠ 0) :
    ({ s.elevate m with host } : Shared σ).revoke m = (.ok (), { s with host }) := by
  simp only [revoke, elevate, setGrant, if_true, hmax, if_false]
  congr 2
  funext n
  by_cases h : n = m
  · simp [h]
  · simp [h]

end Shared

namespace VisibilityPolicy

variable (p : VisibilityPolicy) (b : Bindings) {access : Access} (attempt : Attempt σ α)
  (w : World σ)

theorem isAccessible_eq {allowed : Bool} (h : p.permits access.member.visibility = allowed)
    (s : Shared σ) : p.toPolicy.isAccessible b access s = (allowed, s) := by
  rw [← h]
  rfl

theorem elevated_of_denied (h : p.permits access.member.visibility = false) :
    elevated p.toPolicy b access attempt w =
      (.error access.denied, w.record (.asked access false (w.grants access.member).flag)) :=
  elevated_of_no attempt w (p.isAccessible_eq b h w.toShared)

theorem elevated_of_flagged (h : p.permits access.member.visibility = true)
    (hflag : (w.grants access.member).flag = true) :
    elevated p.toPolicy b access attempt w =
      attempt.perform access (w.record (.asked access true true)) :=
  elevated_of_flag attempt w (p.isAccessible_eq b h w.toShared) hflag

/-- The release that ends an elevated access. -/
def release (access : Access) : Except AccessError Unit × Shared σ :=
  ({ w.elevate access.member with host := attempt.hostAfter w.host } : Shared σ).revoke
    access.member

theorem elevated_of_unflagged (h : p.permits access.member.visibility = true)
    (hflag : (w.grants access.member).flag = false) :
    elevated p.toPolicy b access attempt w =
      (settled (attempt.resultAt w.host) (release attempt w access).1,
        { (release attempt w access).2 with
          trail := w.trail ++ #[.asked access true false, .setUp access (.elevated false) false,
            .reached access attempt.call (attempt.endingAt w.host),
            .restored access (.elevated false)] }) := by
  have hsetup : p.toPolicy.setup b access w.toShared =
      (.elevated false, w.toShared.elevate access.member) := by
    simp [toPolicy, setup, h, hflag]
  have hstill : ((w.toShared.elevate access.member).grants access.member).flag = false := by
    simp [Shared.elevate, hflag]
  rw [elevated_of_lent attempt w (p.isAccessible_eq b h w.toShared) hflag hsetup (.inr rfl) rfl,
    hstill]
  rfl

end VisibilityPolicy
end ObjectGraph
