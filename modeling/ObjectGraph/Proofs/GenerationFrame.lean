import ObjectGraph.Proofs.SessionSequencing

/-!
# What generation leaves alone

A generation changes the hint and the world only: bindings, policy, null handlers and place are
afterwards what they were. The steps of a successful generation can be read off its result.
-/
namespace ObjectGraph

variable {σ ε α β : Type}

theorem Action.mapError_eq_ok {S δ : Type} {a : Action S ε α} {f : ε → δ} {s t : S} {x : α} :
    a.mapError f s = (.ok x, t) ↔ a s = (.ok x, t) := by
  unfold mapError
  rcases a s with ⟨e | y, u⟩
  · change (Except.error (f e), u) = (.ok x, t) ↔ (Except.error e, u) = (.ok x, t)
    simp
  · change (Except.ok y, u) = (.ok x, t) ↔ (Except.ok y, u) = (.ok x, t)
    simp

/-- An action that does not change what the view shows of the context. -/
def Preserves {γ : Type} (view : Context σ → γ) (g : Action (Session σ) ε α) : Prop :=
  ∀ s, view (g s).2.context = view s.context

namespace Preserves

variable {γ : Type} {view : Context σ → γ}

theorem pure (x : α) : Preserves view (Pure.pure x : Action (Session σ) ε α) := fun _ => rfl

theorem bind {g : Action (Session σ) ε α} {f : α → Action (Session σ) ε β}
    (hg : Preserves view g) (hf : ∀ x, Preserves view (f x)) : Preserves view (g >>= f) := by
  intro s
  have hs := hg s
  obtain ⟨e, s', hr, hbind⟩ | ⟨x, s', hr, hbind⟩ := Action.bind_cases g f s
  · rw [hr] at hs
    rw [hbind]
    exact hs
  · rw [hr] at hs
    rw [hbind]
    exact (hf x s').trans hs

theorem sequenced : Sequenced fun {_} (g _ : Action (Session σ) ε _) => Preserves view g where
  pure := pure
  bind := bind

/-- What leaves the whole context alone preserves every view of it. -/
theorem of_id {g : Action (Session σ) ε α} (h : Preserves id g) : Preserves view g :=
  fun s => congrArg view (h s)

theorem of_context {f : Context σ → Action (Session σ) ε α}
    (h : ∀ ctx, Preserves view (f ctx)) : Preserves view (Session.current >>= f) :=
  fun s => h s.context s

end Preserves

namespace Generation

variable {classes : Registry σ}

theorem preserves_checkAccess (e : Expr) (o : ObjectRef) (member : Member) (name : String) :
    Preserves id (checkAccess e o member name : Generation σ Unit) := by
  refine Preserves.bind (fun s => rfl) fun allowed => ?_
  cases allowed with
  | true => exact .pure ()
  | false => exact fun _ => rfl

theorem preserves_checks : CheckRelated fun {_} (g _ : Generation σ _) => Preserves id g where
  access := preserves_checkAccess
  missing _ _ _ := fun _ => rfl

theorem preserves_checkProperty (e : Expr) (target : Value) (name : String) :
    Preserves id (checkProperty classes e target name) :=
  preserves_checks.property Preserves.sequenced classes e target name

theorem preserves_checkMethod (e : Expr) (target : Value) (name : String) :
    Preserves id (checkMethod classes e target name) :=
  preserves_checks.method Preserves.sequenced classes e target name

theorem checkProperty_of_plain {here : Value} (h : here.Plain) (e : Expr) (name : String) :
    checkProperty classes e here name = pure () := by
  cases here with
  | object o => cases h
  | _ => rfl

theorem checkMethod_of_plain {here : Value} (h : here.Plain) (e : Expr) (name : String) :
    checkMethod classes e here name = pure () := by
  cases here with
  | object o => cases h
  | _ => rfl

theorem preserves_stepping (whole link : Expr) (here : Value) :
    Preserves id (stepping classes whole link here) := fun _ => rfl

theorem keepingPlace_place (g : Generation σ α) :
    Preserves Context.place (keepingPlace g) := fun _ => rfl

theorem navigating_place (fragment : Fragment → Fragment) :
    Preserves Context.place (navigating fragment : Generation σ Fragment) := fun _ => rfl

theorem asValue_place {g : Generation σ Fragment} (hg : Preserves Context.place g) :
    Preserves Context.place (asValue g) :=
  hg.bind fun _ => .of_context fun _ => .pure _

theorem fromRoot_place (g : Value → Generation σ Fragment) :
    Preserves Context.place (fromRoot g) :=
  .of_context fun _ => keepingPlace_place _

/-! ## Successful generation -/

section

variable {s s' : Session σ}

theorem keepingPlace_eq_ok {g : Generation σ α} {x : α} :
    keepingPlace g s = (.ok x, s') ↔
      ∃ u, g s = (.ok x, u) ∧
        s' = { u with context := { u.context with place := s.context.place } } := by
  constructor
  · intro h
    cases hr : g s with
    | mk r u =>
      simp only [keepingPlace, hr, Prod.mk.injEq] at h
      obtain ⟨rfl, rfl⟩ := h
      exact ⟨u, rfl, rfl⟩
  · rintro ⟨u, hg, rfl⟩
    rw [keepingPlace, hg]

theorem asValue_eq_ok {g : Generation σ Fragment} {f : Fragment} :
    asValue g s = (.ok f, s') ↔
      ∃ fragment, g s = (.ok fragment, s') ∧ f = fragment.asValue s'.context.currentType := by
  rw [asValue, Action.bind_eq_ok]
  constructor
  · rintro ⟨fragment, u, hg, h⟩
    cases h
    exact ⟨fragment, hg, rfl⟩
  · rintro ⟨fragment, hg, rfl⟩
    exact ⟨fragment, s', hg, rfl⟩

/-- An operand that navigates from the root is rendered with the root as its place. -/
theorem exists_of_fromRoot {g : Value → Generation σ Fragment} {f : Fragment}
    (h : fromRoot g s = (.ok f, s')) :
    ∃ fragment u, g s.context.root { s with context := { s.context with place := .rootPlace } } =
        (.ok fragment, u) ∧ f = fragment.asValue u.context.currentType ∧
      s' = { u with context := { u.context with place := s.context.place } } := by
  obtain ⟨u, hkept, hs'⟩ := keepingPlace_eq_ok.1 h
  obtain ⟨_, _, hset, hvalue⟩ := Action.bind_eq_ok.1 hkept
  cases hset
  obtain ⟨fragment, hg, hf⟩ := asValue_eq_ok.1 hvalue
  exact ⟨fragment, u, hg, hf, hs'⟩

theorem stepping_eq_ok {whole link : Expr} {here value : Value} :
    stepping classes whole link here s = (.ok value, s') ↔
      ∃ world, link.evaluate classes s.context here s.world = (.ok value, world) ∧
        s' = { s with world } := by
  rw [stepping, Action.mapError_eq_ok, Session.reading, Prod.mk.injEq]
  constructor
  · rintro ⟨hvalue, rfl⟩
    exact ⟨_, by rw [← hvalue], rfl⟩
  · rintro ⟨world, hr, rfl⟩
    rw [hr]
    exact ⟨rfl, rfl⟩

end
end Generation

theorem Context.root_of_reset {ctx ctx' : Context σ} (h : ctx.reset = ctx'.reset) :
    ctx.root = ctx'.root := by
  change ctx.reset.root = ctx'.reset.root
  rw [h]

theorem Context.vars_of_reset {ctx ctx' : Context σ} (h : ctx.reset = ctx'.reset) :
    ctx.vars = ctx'.vars := by
  change ctx.reset.vars = ctx'.reset.vars
  rw [h]

namespace Expr

open Generation

variable {classes : Registry σ}

/-- Evaluation does not look at what generation uses of a context. -/
theorem evaluate_reset (ctx : Context σ) (e : Expr) (here : Value) :
    e.evaluate classes ctx.reset here = e.evaluate classes ctx here := by
  have hsteps : StepsRelated classes classes ctx.reset ctx
      fun {_} (a a' : Run σ EvalError _) => a = a' := {
    bindings := rfl
    property := fun _ _ => rfl
    index := fun _ _ => rfl
    subscript := fun _ _ => rfl
    method := fun _ _ _ => rfl }
  exact e.related_evaluate Sequenced.eq hsteps here

theorem evaluate_of_reset {ctx ctx' : Context σ} (h : ctx.reset = ctx'.reset) (e : Expr)
    (here : Value) : e.evaluate classes ctx here = e.evaluate classes ctx' here := by
  rw [← evaluate_reset ctx, h, evaluate_reset]

/-- Generation leaves bindings, policy and null handlers alone. -/
theorem generate_reset (e : Expr) (target : Value) :
    Preserves Context.reset (e.generate classes target) := by
  have h : RenderRelated classes classes
      fun {_} (g _ : Generation σ _) => Preserves Context.reset g := {
    current := fun h s => h s.context s.context (Context.Alike.refl _) s
    setHint := fun _ _ => rfl
    setPlace := fun _ _ => rfl
    keepingPlace := fun h s => h s
    within := fun _ _ _ h s => h s
    checkProperty := fun e target name => (preserves_checkProperty e target name).of_id
    checkMethod := fun e target name => (preserves_checkMethod e target name).of_id
    stepping := fun whole link here => (preserves_stepping whole link here).of_id }
  exact e.related_generate Preserves.sequenced h target

theorem asValue_reset (e : Expr) (target : Value) :
    Preserves Context.reset (asValue (e.generate classes target)) :=
  (e.generate_reset target).bind fun _ => .of_context fun _ => .pure _

theorem fromRoot_reset (e : Expr) :
    Preserves Context.reset (fromRoot fun origin => e.generate classes origin) := by
  refine .of_context fun ctx s => ?_
  have hreset : Preserves Context.reset
      (setPlace .rootPlace >>= fun _ => asValue (e.generate classes ctx.root)) :=
    .bind (fun _ => rfl) fun _ => e.asValue_reset ctx.root
  exact hreset s

theorem generateArgs_place (args : List Expr) :
    Preserves Context.place (generateArgs classes args) := by
  induction args with
  | nil => exact .pure []
  | cons arg args ih => exact (fromRoot_place _).bind fun _ => ih.bind fun _ => .pure _

mutual
/-- Generation leaves the place alone. -/
theorem generate_place : ∀ (e : Expr) (target : Value),
    Preserves Context.place (e.generate classes target)
  | const _, _ => fun _ => rfl
  | root, _ => fun _ => rfl
  | source, _ => fun _ => rfl
  | var _, _ => fun _ => rfl
  | property name, target =>
    (preserves_checkProperty (property name) target name).of_id.bind fun _ => navigating_place _
  | index _, _ => (fromRoot_place _).bind fun _ => navigating_place _
  | subscript _, _ => navigating_place _
  | method name args, target =>
    (preserves_checkMethod (method name args) target name).of_id.bind fun _ =>
      (generateArgs_place args).bind fun _ => navigating_place _
  | chain [], _ => fun _ => rfl
  | chain (_ :: _), _ => keepingPlace_place _
  | not operand, target =>
    .bind (fun s => generate_place operand target s) fun _ => fun _ => rfl
  | logical _ operands, target =>
    (generateOperands_place operands target).bind fun _ => fun _ => rfl
  | compare _ left right, target =>
    (asValue_place (generate_place left target)).bind fun _ =>
      (asValue_place (generate_place right target)).bind fun _ => fun _ => rfl
termination_by structural e => e

theorem generateOperands_place : ∀ (operands : List Expr) (target : Value),
    Preserves Context.place (generateOperands classes operands target)
  | [], _ => .pure []
  | operand :: operands, target =>
    (asValue_place (generate_place operand target)).bind fun _ =>
      (generateOperands_place operands target).bind fun _ => .pure _
termination_by structural operands => operands
end

end Expr
end ObjectGraph
