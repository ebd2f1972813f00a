import ObjectGraph.Proofs.Effect
import ObjectGraph.Proofs.Gate
import ObjectGraph.Proofs.PlainGeneration

/-!
# Plain data and the policy

As long as no host object is within reach, evaluation stays in plain data, fails only in the ways
in which data can fail, and never turns to the policy: nothing is asked, elevated or restored, and
no host code is run. So it does the same under every policy, and so does generation.
-/
namespace ObjectGraph

variable {σ ε δ α β : Type}

/-! ## What is within reach -/

/-- Plain data all around. -/
def Key.Plain : Key → Prop
  | name _ => True
  | index key => key.Plain
  | subscript _ => True

def Step.Plain : Step → Prop
  | property target key => target.Plain ∧ key.Plain
  | method target _ args => target.Plain ∧ ∀ arg ∈ args, arg.Plain

/-- No host object is within reach: neither the root nor a variable contains one, and null handlers
that are asked about plain data, whatever they do to the host, answer with plain data. -/
structure Context.Objectless (ctx : Context σ) : Prop where
  root : ctx.root.Plain
  vars {name : String} {v : Value} : ctx.vars.find? name = some v → v.Plain
  nulls {typeName : String} {slot : Option String} {h : NullHandler σ} :
    ctx.nulls.handler? typeName = some (slot, h) → ∀ step : Step, step.Plain → ∀ host,
      (h.answer ctx.toBindings step host).1.Plain

namespace Context.Objectless

variable {ctx : Context σ}

theorem valueOf (h : ctx.Objectless) (name : String) : (ctx.valueOf name).Plain := by
  unfold Context.valueOf
  cases hfind : ctx.vars.find? name with
  | none => rfl
  | some v => exact h.vars hfind

/-- What generation leaves behind in a context does not matter. -/
theorem of_reset {ctx' : Context σ} (h : ctx.Objectless) (hreset : ctx'.reset = ctx.reset) :
    ctx'.Objectless := by
  have hctx' : ctx'.reset.Objectless := by
    rw [hreset]
    exact ⟨h.root, h.vars, h.nulls⟩
  exact ⟨hctx'.root, hctx'.vars, hctx'.nulls⟩

end Context.Objectless

/-! ## Runs that ask no policy -/

/-- Nothing was done but navigation and what null handlers do. -/
abbrev World.Remarks (w w' : World σ) : Prop := w.GrowsBy (fun event => event.isRemark = true) w'

/-- The two runs do the same in every world. They come to a value with the property or to an error
that data can raise, and turn neither to a policy nor to host code. -/
def Indifferent (P : α → Prop) (a a' : Run σ EvalError α) : Prop :=
  ∀ w, a' w = a w ∧ w.Remarks (a w).2 ∧ (∀ x, (a w).1 = .ok x → P x) ∧
    ∀ e, (a w).1 = .error e → e.ofData = true

namespace Indifferent

variable {P : α → Prop} {Q : β → Prop} {a a' : Run σ EvalError α} {f f' : α → Run σ EvalError β}

theorem pure {x : α} (h : P x) : Indifferent P (Pure.pure x : Run σ EvalError α) (Pure.pure x) :=
  fun w => ⟨rfl, .refl w, by rintro _ ⟨⟩; exact h, nofun⟩

theorem fail {e : EvalError} (h : e.ofData = true) :
    Indifferent P (Action.fail e : Run σ EvalError α) (Action.fail e) :=
  fun w => ⟨rfl, .refl w, nofun, by rintro _ ⟨⟩; exact h⟩

theorem bind (ha : Indifferent P a a') (hf : ∀ x, P x → Indifferent Q (f x) (f' x)) :
    Indifferent Q (a >>= f) (a' >>= f') := by
  intro w
  obtain ⟨heq, hremarks, hvalue, herror⟩ := ha w
  obtain ⟨e, u, hr, hbind⟩ | ⟨x, u, hr, hbind⟩ := Action.bind_cases a f w
  · rw [hr] at heq hremarks herror
    rw [hbind, Action.bind_of_error heq]
    exact ⟨rfl, hremarks, nofun, by rintro _ ⟨⟩; exact herror e rfl⟩
  · rw [hr] at heq hremarks hvalue
    rw [hbind, Action.bind_of_ok heq]
    obtain ⟨hnext, hmore, hrest⟩ := hf x (hvalue x rfl) u
    exact ⟨hnext, hremarks.trans hmore, hrest⟩

theorem ofExcept {P : Value → Prop} {r : Except EvalError Value} (h : Yields P r) :
    Indifferent P (Action.ofExcept r : Run σ EvalError Value) (Action.ofExcept r) :=
  fun w => ⟨rfl, .refl w, by rintro v rfl; exact h, by rintro e rfl; exact h⟩

end Indifferent

/-! ## Evaluation -/

variable {classes : Registry σ} {ctx : Context σ} {P : Policy σ}

namespace Navigation

theorem indifferent_fill (hctx : ctx.Objectless) {step : Step} (hstep : step.Plain) :
    Indifferent Value.Plain (ctx.nulls.fill ctx.toBindings step : Run σ EvalError Value)
      (ctx.nulls.fill ctx.toBindings step) := by
  intro w
  unfold NullHandlers.fill
  cases hhandler : ctx.nulls.handler? step.target.typeName with
  | none => exact ⟨rfl, .refl w, by rintro _ ⟨⟩; rfl, nofun⟩
  | some entry =>
    refine ⟨rfl, World.GrowsBy.record ⟨[], by simp, by simp⟩ rfl, ?_, nofun⟩
    rintro _ ⟨⟩
    exact hctx.nulls hhandler step hstep w.host

theorem indifferent_navigate (hctx : ctx.Objectless) (step : Step) (hstep : step.Plain)
    {a a' : Run σ EvalError Value} (ha : Indifferent Value.Plain a a') :
    Indifferent Value.Plain (navigate ctx step a) (navigate (ctx.withPolicy P) step a') := by
  have hrecording : Indifferent Value.Plain (World.recording (.navigated step) a)
      (World.recording (.navigated step) a') := by
    intro w
    obtain ⟨heq, hremarks, houtcome⟩ := ha w
    refine ⟨?_, hremarks.record rfl, houtcome⟩
    simp only [World.recording, heq]
  refine hrecording.bind fun v hv => ?_
  split
  · exact indifferent_fill hctx hstep
  · exact .pure hv

theorem indifferent_propertyOf {here : Value} (h : here.Plain) (name : String) :
    Indifferent Value.Plain (propertyOf classes ctx here name)
      (propertyOf classes (ctx.withPolicy P) here name) := by
  have hdown := Value.handedDown_plain
  cases here with
  | object o => cases h
  | map entries => exact .pure (hdown.entryAt h name)
  | array items =>
    simp only [propertyOf]
    split
    · exact .pure (hdown.ofNat _)
    · exact .fail rfl
  | string s =>
    simp only [propertyOf]
    split
    · exact .pure (hdown.ofNat _)
    · exact .fail rfl
  | _ => exact .fail rfl

theorem indifferent_indexOf {here : Value} (h : here.Plain) (key : Value) :
    Indifferent Value.Plain (indexOf classes ctx here key)
      (indexOf classes (ctx.withPolicy P) here key) := by
  have hdown := Value.handedDown_plain
  cases here with
  | object o => cases h
  | map entries => exact .pure (hdown.entryAt h _)
  | array items =>
    cases key with
    | integer index => exact .ofExcept (Builtin.yields_itemAt hdown h index)
    | _ => exact .fail rfl
  | _ => exact .fail rfl

theorem indifferent_resultOf {here : Value} (h : here.Plain) (name : String)
    (args : List Value) :
    Indifferent Value.Plain (resultOf classes ctx here name args)
      (resultOf classes (ctx.withPolicy P) here name args) := by
  cases here with
  | object o => cases h
  | null => exact .fail rfl
  | _ => exact .ofExcept (Builtin.yields_call Value.handedDown_plain h name args)

end Navigation

namespace Expr

open Navigation

variable (classes P)

mutual
/-- Evaluation of plain data comes to plain data or to an error of data, and asks no policy. -/
theorem indifferent_evaluate (hctx : ctx.Objectless) : ∀ (e : Expr) {here : Value}, here.Plain →
    Indifferent Value.Plain (e.evaluate classes ctx here)
      (e.evaluate classes (ctx.withPolicy P) here)
  | const literal, _, _ => .pure (by cases literal <;> rfl)
  | root, _, _ => .pure hctx.root
  | source, _, h => .pure h
  | var name, _, _ => .pure (hctx.valueOf name)
  | property name, _, h =>
    indifferent_navigate hctx (.property _ (.name name)) ⟨h, trivial⟩
      (indifferent_propertyOf h name)
  | index key, _, h =>
    (indifferent_evaluate hctx key hctx.root).bind fun k hk =>
      indifferent_navigate hctx (.property _ (.index k)) ⟨h, hk⟩ (indifferent_indexOf h k)
  | subscript s, _, h =>
    indifferent_navigate hctx (.property _ (.subscript s)) ⟨h, trivial⟩
      (.ofExcept (yields_subscriptOf Value.handedDown_plain h s))
  | method name args, _, h =>
    (indifferent_evaluateArgs hctx args).bind fun values hvalues =>
      indifferent_navigate hctx (.method _ name values) ⟨h, hvalues⟩
        (indifferent_resultOf h name values)
  | chain links, _, h => indifferent_evaluateLinks hctx links h
  | not operand, _, h => (indifferent_evaluate hctx operand h).bind fun _ _ => .pure rfl
  | logical op operands, _, h => indifferent_evaluateOperands hctx op operands rfl h
  | compare op left right, _, h =>
    (indifferent_evaluate hctx left h).bind fun _ _ =>
      (indifferent_evaluate hctx right h).bind fun _ _ => .pure rfl
termination_by structural e => e

theorem indifferent_evaluateArgs (hctx : ctx.Objectless) : ∀ args : List Expr,
    Indifferent (fun values => ∀ v ∈ values, v.Plain) (evaluateArgs classes ctx args)
      (evaluateArgs classes (ctx.withPolicy P) args)
  | [] => .pure (by simp)
  | arg :: args =>
    (indifferent_evaluate hctx arg hctx.root).bind fun v hv =>
      (indifferent_evaluateArgs hctx args).bind fun values hvalues =>
        .pure (List.forall_mem_cons.2 ⟨hv, hvalues⟩)
termination_by structural args => args

theorem indifferent_evaluateLinks (hctx : ctx.Objectless) : ∀ (links : List Expr) {here : Value},
    here.Plain → Indifferent Value.Plain (evaluateLinks classes ctx links here)
      (evaluateLinks classes (ctx.withPolicy P) links here)
  | [], _, h => .pure h
  | link :: links, _, h =>
    (indifferent_evaluate hctx link h).bind fun _ hv => indifferent_evaluateLinks hctx links hv
termination_by structural links => links

theorem indifferent_evaluateOperands (hctx : ctx.Objectless) (op : Connective) :
    ∀ (operands : List Expr) {last here : Value}, last.Plain → here.Plain →
      Indifferent Value.Plain (evaluateOperands classes ctx op operands last here)
        (evaluateOperands classes (ctx.withPolicy P) op operands last here)
  | [], _, _, hlast, _ => .pure hlast
  | operand :: operands, _, _, _, h =>
    (indifferent_evaluate hctx operand h).bind fun v hv => by
      split
      · exact .pure hv
      · exact indifferent_evaluateOperands hctx op operands hv h
termination_by structural operands => operands
end

end Expr

/-! ## Generation -/

/-- The action does the same in every two sessions that differ in the policy only and in which the
context is this one, but for what generation uses of it. It leaves such a session behind, turns
neither to a policy nor to host code, and a result has the property. -/
def IndifferentIn (ctx : Context σ) (P : α → Prop) (g : Action (Session σ) ε α) : Prop :=
  ∀ s, s.context.reset = ctx.reset →
    (∀ Q, g (s.withPolicy Q) = ((g s).1, (g s).2.withPolicy Q)) ∧
    (g s).2.context.reset = ctx.reset ∧ s.world.Remarks (g s).2.world ∧
    ∀ x, (g s).1 = .ok x → P x

namespace IndifferentIn

variable {P : α → Prop} {Q : β → Prop} {g : Action (Session σ) ε α}
  {f : α → Action (Session σ) ε β}

theorem pure {x : α} (h : P x) : IndifferentIn ctx P (Pure.pure x : Action (Session σ) ε α) :=
  fun s hs => ⟨fun _ => rfl, hs, .refl s.world, by rintro _ ⟨⟩; exact h⟩

theorem bind (hg : IndifferentIn ctx P g) (hf : ∀ x, P x → IndifferentIn ctx Q (f x)) :
    IndifferentIn ctx Q (g >>= f) := by
  intro s hs
  obtain ⟨hsame, hreset, hremarks, hvalue⟩ := hg s hs
  obtain ⟨e, u, hr, hbind⟩ | ⟨x, u, hr, hbind⟩ := Action.bind_cases g f s
  · rw [hr] at hsame hreset hremarks
    rw [hbind]
    exact ⟨fun Q => Action.bind_of_error (hsame Q), hreset, hremarks, nofun⟩
  · rw [hr] at hsame hreset hremarks hvalue
    obtain ⟨hnext, hreset', hmore, hrest⟩ := hf x (hvalue x rfl) u hreset
    rw [hbind]
    refine ⟨fun Q => ?_, hreset', hremarks.trans hmore, hrest⟩
    rw [Action.bind_of_ok (hsame Q)]
    exact hnext Q

theorem change {f : Context σ → Context σ} (hreset : ∀ c, (f c).reset = c.reset)
    (hsame : ∀ c Q, f (c.withPolicy Q) = (f c).withPolicy Q) :
    IndifferentIn ctx (fun _ => True) (Session.change f : Action (Session σ) ε Unit) := by
  intro s hs
  refine ⟨fun Q => ?_, (hreset s.context).trans hs, .refl s.world, fun _ _ => trivial⟩
  simp [Session.change, Session.withPolicy, hsame]

/-- Looking at what the policy does not show in. -/
theorem current {f : Context σ → Action (Session σ) ε β}
    (hf : ∀ c, c.reset = ctx.reset → IndifferentIn ctx Q (f c))
    (hsame : ∀ c Q, f (c.withPolicy Q) = f c) :
    IndifferentIn ctx Q (Session.current >>= f) := by
  intro s hs
  obtain ⟨hrun, hrest⟩ := hf s.context hs s hs
  refine ⟨fun Q => ?_, hrest⟩
  change f (s.context.withPolicy Q) (s.withPolicy Q) = _
  rw [hsame, hrun]
  rfl

theorem mapError (hg : IndifferentIn ctx P g) (f : ε → δ) :
    IndifferentIn ctx P (g.mapError f) := by
  intro s hs
  obtain ⟨hsame, hreset, hremarks, hvalue⟩ := hg s hs
  refine ⟨fun Q => ?_, hreset, hremarks, fun x hx => ?_⟩
  · simp only [Action.mapError, hsame]
  · exact hvalue x (congrArg Prod.fst (Action.mapError_eq_ok.1 (Prod.ext hx rfl)))

end IndifferentIn

namespace Generation

open IndifferentIn

theorem indifferent_keepingPlace {P : α → Prop} {g : Generation σ α}
    (hg : IndifferentIn ctx P g) : IndifferentIn ctx P (keepingPlace g) := by
  intro s hs
  obtain ⟨hsame, hreset, hremarks, hvalue⟩ := hg s hs
  refine ⟨fun Q => ?_, hreset, hremarks, hvalue⟩
  simp only [keepingPlace, hsame]
  rfl

theorem indifferent_stepping (hctx : ctx.Objectless) (whole link : Expr) {here : Value}
    (h : here.Plain) : IndifferentIn ctx Value.Plain (stepping classes whole link here) := by
  refine IndifferentIn.mapError (fun s hs => ?_) (GenerationError.failed whole)
  have hlink (P : Policy σ) := link.indifferent_evaluate classes P (hctx.of_reset hs) h s.world
  refine ⟨fun Q => ?_, hs, (hlink s.context.policy).2.1, (hlink s.context.policy).2.2.1⟩
  simp only [Session.reading, Session.withPolicy, (hlink Q).1]

end Generation

/-- Generation over plain data asks no policy. -/
theorem indifferent_steps (classes : Registry σ) (hctx : ctx.Objectless) :
    PlainSteps classes ctx fun {_} P g => IndifferentIn ctx P g where
  root := hctx.root
  pure := .pure
  bind := .bind
  current hf hsame := .current hf fun c Q => hsame c (c.withPolicy Q) (c.alike_withPolicy Q)
  setHint _ := .change (fun _ => rfl) fun _ _ => rfl
  setPlace _ := .change (fun _ => rfl) fun _ _ => rfl
  keepingPlace := Generation.indifferent_keepingPlace
  within e _ hg := hg.mapError (GenerationError.within e)
  stepping := Generation.indifferent_stepping hctx

theorem Expr.indifferent_generateFromRoot (classes : Registry σ) (hctx : ctx.Objectless)
    (e : Expr) : IndifferentIn ctx (fun _ => True) (e.generateFromRoot classes) :=
  e.plain_generateFromRoot (indifferent_steps classes hctx) (.change (fun _ => rfl) fun _ _ => rfl)

end ObjectGraph
