import ObjectGraph.Proofs.Effect
import ObjectGraph.Proofs.Gate

/-!
# Balance of elevations

Every elevation is undone by the release that ends its access, on every way out of it. So a whole
run leaves flags and counters as they were, whatever host code did, and an error of the
elevation protocol can only have come out of host code.
-/
namespace ObjectGraph

variable {σ : Type}

namespace World

/-- Host code that was run in between failed with this error. -/
def Blames (w w' : World σ) (error : AccessError) : Prop :=
  ∃ new, w'.trail.toList = w.trail.toList ++ new ∧
    ∃ access call, Event.reached access call (.failed (.access error)) ∈ new

/-- No counter is at its maximum. -/
def Elevatable (w : World σ) : Prop := ∀ m, (w.grants m).elevations.toNat + 1 < UInt64.size

theorem Elevatable.succ_ne_zero {w : World σ} (h : w.Elevatable) (m : Member) :
    (w.grants m).elevations + 1 ≠ 0 := by
  intro hzero
  have hlt := h m
  have hsum : ((w.grants m).elevations + 1).toNat = (w.grants m).elevations.toNat + 1 := by
    rw [UInt64.toNat_add]
    exact Nat.mod_eq_of_lt hlt
  rw [hzero] at hsum
  simp at hsum

variable {error : AccessError}

theorem Blames.after {w w' w'' : World σ} {P : Event → Prop} (h : w.GrowsBy P w')
    (hblames : w'.Blames w'' error) : w.Blames w'' error := by
  obtain ⟨new, htrail, -⟩ := h
  obtain ⟨new', htrail', access, call, hmem⟩ := hblames
  refine ⟨new ++ new', by rw [htrail', htrail, List.append_assoc], access, call, ?_⟩
  exact List.mem_append_right new hmem

theorem Blames.record {w w' : World σ} (h : w.Blames w' error) (event : Event) :
    w.Blames (w'.record event) error := by
  obtain ⟨new, htrail, access, call, hmem⟩ := h
  refine ⟨new ++ [event], by simp [World.record, htrail], access, call, ?_⟩
  exact List.mem_append_left [event] hmem

end World

/-- Flags and counters are as before, and an error of the elevation protocol came out of host
code. -/
structure Balanced (w : World σ) (e : Option EvalError) (w' : World σ) : Prop where
  grants : w'.grants = w.grants
  grows : w.GrowsBy (fun _ => True) w'
  blames (error : AccessError) : e = some (.access error) → w.Blames w' error

namespace Balanced

variable {w w' w'' : World σ} {e : Option EvalError}

/-- Runs without such an error. -/
theorem quiet (hgrants : w'.grants = w.grants) (hgrows : w.GrowsBy (fun _ => True) w')
    (he : ∀ e', e = some e' → e'.isAccess = false) : Balanced w e w' where
  grants := hgrants
  grows := hgrows
  blames error herror := by
    have := he _ herror
    cases this

theorem trans (h : Balanced w none w') (h' : Balanced w' e w'') : Balanced w e w'' where
  grants := h'.grants.trans h.grants
  grows := h.grows.trans h'.grows
  blames error herror := .after h.grows (h'.blames error herror)

theorem record (h : Balanced w e w') (event : Event) : Balanced w e (w'.record event) where
  grants := h.grants
  grows := h.grows.record trivial
  blames error herror := (h.blames error herror).record event

variable {α : Type} {attempt : Attempt σ α}

/-- The events of an access to which its ending belongs, when an error of the protocol ends it. -/
theorem blames_of_reached (access : Access) (hproper : attempt.Proper) {new : List Event} {host : σ}
    (htrail : w'.trail.toList = w.trail.toList ++ new)
    (hmem : Event.reached access attempt.call (attempt.endingAt host) ∈ new)
    {error : AccessError} (h : attempt.resultAt host = .error (.access error)) :
    w.Blames w' error := by
  rw [attempt.endingAt_of_access hproper h] at hmem
  exact ⟨new, htrail, access, attempt.call, hmem⟩

/-- An access to a flagged member changes no grant. -/
theorem perform (hproper : attempt.Proper) (access : Access) (w : World σ) :
    Balanced w (errorOf (attempt.perform access w).1) (attempt.perform access w).2 := by
  rw [attempt.perform_apply]
  refine ⟨rfl, ⟨_, World.toList_trail_record _ _, fun _ _ => trivial⟩, ?_⟩
  intro error herror
  have hresult : attempt.resultAt w.host = .error (.access error) := eq_error_of_errorOf herror
  exact blames_of_reached access hproper (World.toList_trail_record _ _) (List.mem_singleton.2 rfl)
    hresult

/-- An access under elevation gives back what it took. -/
theorem elevated {p : VisibilityPolicy} (b : Bindings) (access : Access)
    (hproper : attempt.Proper) (hw : w.Elevatable) :
    Balanced w (errorOf (elevated p.toPolicy b access attempt w).1)
      (elevated p.toPolicy b access attempt w).2 := by
  cases hp : p.permits access.member.visibility with
  | false =>
    rw [p.elevated_of_denied b attempt w hp]
    exact (quiet rfl (.refl w) (by rintro _ ⟨⟩; rfl)).record _
  | true =>
    cases hflag : (w.grants access.member).flag with
    | true =>
      rw [p.elevated_of_flagged b attempt w hp hflag]
      have hasked : Balanced w none (w.record (.asked access true true)) :=
        (quiet rfl (.refl w) (by rintro _ ⟨⟩)).record _
      exact hasked.trans (perform hproper access _)
    | false =>
      have hrelease : VisibilityPolicy.release attempt w access =
          (.ok (), { w.toShared with host := attempt.hostAfter w.host }) :=
        Shared.revoke_elevate w.toShared access.member _ (hw.succ_ne_zero access.member)
      rw [p.elevated_of_unflagged b attempt w hp hflag, hrelease]
      refine ⟨rfl, ⟨_, Array.toList_append, fun _ _ => trivial⟩, ?_⟩
      intro error herror
      have hresult : attempt.resultAt w.host = .error (.access error) := by
        cases hr : attempt.resultAt w.host with
        | ok x => simp [hr, settled] at herror
        | error e => simpa [hr, settled] using herror
      exact blames_of_reached access hproper Array.toList_append (by simp) hresult

end Balanced

namespace Effect

def balanced : Effect σ := fun w e w' => w.Elevatable → Balanced w e w'

theorem lasting_balanced (p : VisibilityPolicy) : Lasting p.toPolicy (balanced : Effect σ) where
  refl w _ := .quiet rfl (.refl w) (by rintro _ ⟨⟩)
  trans {w w' w'' e} h h' hw := by
    have hfirst : Balanced w none w' := h hw
    have hw' : w'.Elevatable := by
      intro m
      rw [hfirst.grants]
      exact hw m
    exact hfirst.trans (h' hw')
  fail w e he _ := .quiet rfl (.refl w) (by rintro _ ⟨⟩; exact he)
  remark h event _ hw := (h hw).record event
  host w host _ := .quiet rfl ⟨[], by simp, by simp⟩ (by rintro _ ⟨⟩)
  ask b access w _ :=
    (Balanced.quiet rfl (.refl w) (by rintro _ ⟨⟩)).record
      (.asked access (p.permits access.member.visibility) (w.grants access.member).flag)
  reach b access _ _ hproper _ hw := .elevated b access hproper hw

end Effect

/-- Whatever is evaluated, assigned through or generated under a policy of switches, and however
it ends: all flags and counters are as before, and only host code can have brought up an error of
the elevation protocol. -/
theorem elevations_balanced {p : VisibilityPolicy} (classes : Registry σ) (s : Session σ)
    (hs : s.context.policy = p.toPolicy)
    (hmax : ∀ m, (s.world.grants m).elevations.toNat + 1 < UInt64.size)
    (e : Expr) (here value : Value) :
    ((e.evaluate classes s.context here s.world).2.grants = s.world.grants ∧
      ∀ error, (e.evaluate classes s.context here s.world).1 = .error (.access error) →
        s.world.Blames (e.evaluate classes s.context here s.world).2 error) ∧
    ((e.assign classes here value s).2.world.grants = s.world.grants ∧
      ∀ error, (e.assign classes here value s).1 = .error (.access error) →
        s.world.Blames (e.assign classes here value s).2.world error) ∧
    ((e.generate classes here s).2.world.grants = s.world.grants ∧
      ∀ error cause, (e.generate classes here s).1 = .error cause → cause.origin = .access error →
        s.world.Blames (e.generate classes here s).2.world error) := by
  have hK : (Effect.balanced : Effect σ).Lasting p.toPolicy := Effect.lasting_balanced p
  have hevaluate : Effect.balanced.Of (e.evaluate classes s.context here) := hK.evaluate hs e here
  have hassign : Effect.balanced.OfSession _ id (e.assign classes here value) :=
    hK.assign e here value
  have hgenerate : Effect.balanced.OfSession _ GenerationError.origin (e.generate classes here) :=
    hK.generate e here
  replace hevaluate := hevaluate s.world hmax
  replace hassign := (hassign s hs).2 hmax
  replace hgenerate := (hgenerate s hs).2 hmax
  refine ⟨⟨hevaluate.grants, ?_⟩, ⟨hassign.grants, ?_⟩, ⟨hgenerate.grants, ?_⟩⟩
  · intro error herror
    exact hevaluate.blames error (by rw [herror]; rfl)
  · intro error herror
    exact hassign.blames error (by rw [herror]; rfl)
  · intro error cause hcause herror
    exact hgenerate.blames error (by rw [hcause, ← herror]; rfl)

/-- A class whose private field fails with an error of the elevation protocol. -/
def faulty : ClassTable Unit :=
  ClassTable.build [.field "code" .isPrivate fun _ => Action.fail (.access (.unbalanced "other"))]

theorem elevations_balanced_faulty :
    let ctx : Context Unit := Context.new (.object ⟨⟨0, "Faulty"⟩, "f"⟩)
    let s : Session Unit :=
      ⟨{ ctx with policy := (VisibilityPolicy.all true).toPolicy }, World.start ()⟩
    let after := (Expr.property "code").evaluate (fun _ => faulty) s.context ctx.root s.world
    after.1 = .error (.access (.unbalanced "other")) ∧ after.2.grants = s.world.grants ∧
      s.world.Blames after.2 (.unbalanced "other") := by
  intro ctx s after
  have hmax (m : Member) : (s.world.grants m).elevations.toNat + 1 < UInt64.size :=
    show (0 : UInt64).toNat + 1 < UInt64.size by decide
  have herror : after.1 = .error (.access (.unbalanced "other")) := rfl
  obtain ⟨⟨hgrants, hblames⟩, -⟩ :=
    elevations_balanced (fun _ => faulty) s rfl hmax (.property "code") ctx.root .null
  exact ⟨herror, hgrants, hblames _ herror⟩

end ObjectGraph
