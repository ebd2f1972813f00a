import ObjectGraph.Proofs.GenerationFrame
import ObjectGraph.Proofs.PlainData

/-!
# Generation over plain data

`SessionSequencing` peels generation down to its steps, whatever the targets are. Where the root is
plain data, and every step from plain data leads to plain data, all targets are plain data: then no
member is ever checked, and the links of chains are stepped through on plain data only. A property
of an action and of its results that returning, sequencing and the steps have is then a property
of generation.
-/
namespace ObjectGraph

variable {σ α : Type}

/-- What a property has to hold of to hold of generation against plain data in a context that is
this one, but for what generation uses of it. -/
structure PlainSteps (classes : Registry σ) (ctx : Context σ)
    (R : ∀ ⦃α : Type⦄, (α → Prop) → Generation σ α → Prop) : Prop where
  root : ctx.root.Plain
  pure {α : Type} {P : α → Prop} {x : α} (h : P x) : R P (Pure.pure x)
  bind {α β : Type} {P : α → Prop} {Q : β → Prop} {g : Generation σ α} {f : α → Generation σ β}
    (hg : R P g) (hf : ∀ x, P x → R Q (f x)) : R Q (g >>= f)
  current {α : Type} {P : α → Prop} {f : Context σ → Generation σ α}
    (hf : ∀ c : Context σ, c.reset = ctx.reset → R P (f c))
    (hsame : ∀ c c' : Context σ, c.Alike c' → f c' = f c) : R P (Session.current >>= f)
  setHint (hint : TypeHint) : R (fun _ => True) (Generation.setHint hint)
  setPlace (place : Fragment) : R (fun _ => True) (Generation.setPlace place)
  keepingPlace {α : Type} {P : α → Prop} {g : Generation σ α} (hg : R P g) :
    R P (Generation.keepingPlace g)
  within {P : Fragment → Prop} (e : Expr) {g : Generation σ Fragment} (hg : R P g) :
    R P (g.mapError (.within e))
  stepping (whole link : Expr) {here : Value} (h : here.Plain) :
    R Value.Plain (Generation.stepping classes whole link here)

variable {classes : Registry σ} {ctx : Context σ}
  {R : ∀ ⦃α : Type⦄, (α → Prop) → Generation σ α → Prop}

namespace PlainSteps

theorem hinted (h : PlainSteps classes ctx R) (hint : TypeHint) (fragment : Fragment) :
    R (fun _ => True) (Generation.setHint hint >>= fun _ => Pure.pure fragment) :=
  h.bind (h.setHint hint) fun _ _ => h.pure trivial

theorem place (h : PlainSteps classes ctx R) : R (fun _ => True) Generation.place :=
  h.current (fun _ _ => h.pure trivial) fun _ _ halike => by rw [halike.place]

theorem asValue (h : PlainSteps classes ctx R) {g : Generation σ Fragment}
    (hg : R (fun _ => True) g) : R (fun _ => True) (Generation.asValue g) :=
  h.bind hg fun _ _ =>
    h.current (fun _ _ => h.pure trivial) fun _ _ halike => by rw [halike.currentType]

theorem fromRoot (h : PlainSteps classes ctx R) {g : Value → Generation σ Fragment}
    (hg : R (fun _ => True) (g ctx.root)) : R (fun _ => True) (Generation.fromRoot g) := by
  refine h.current (fun c hc => ?_) fun c c' halike => ?_
  · rw [Context.root_of_reset hc]
    exact h.keepingPlace (h.bind (h.setPlace .rootPlace) fun _ _ => h.asValue hg)
  · rw [show c'.root = c.root by rw [halike.bindings]]

theorem navigating (h : PlainSteps classes ctx R) (fragment : Fragment → Fragment) :
    R (fun _ => True) (Generation.navigating fragment) :=
  h.bind (h.setHint .dynamic) fun _ _ => h.bind h.place fun _ _ => h.pure trivial

end PlainSteps

namespace Expr

mutual
theorem plain_generate (h : PlainSteps classes ctx R) : ∀ (e : Expr) {target : Value},
    target.Plain → R (fun _ => True) (e.generate classes target)
  | const _, _, _ => h.hinted _ _
  | root, _, _ => h.current (fun _ _ => h.hinted _ _) fun c c' halike => by
    rw [show c'.root = c.root by rw [halike.bindings]]
  | source, _, _ => h.bind (h.setHint _) fun _ _ => h.bind h.place fun _ _ => h.pure trivial
  | var _, _, _ => h.current (fun _ _ => h.hinted _ _) fun c c' halike => by
    rw [show c'.vars = c.vars by rw [halike.bindings]]
  | property name, target, htarget => by
    rw [generate, Generation.checkProperty_of_plain htarget, pure_bind]
    exact h.navigating _
  | index key, _, _ =>
    h.bind (h.fromRoot (plain_generate h key h.root)) fun _ _ => h.navigating _
  | subscript _, _, _ => h.navigating _
  | method name args, target, htarget => by
    rw [generate, Generation.checkMethod_of_plain htarget, pure_bind]
    exact h.bind (plain_generateArgs h args) fun _ _ => h.navigating _
  | chain [], _, _ => h.hinted _ _
  | chain (link :: links), _, htarget =>
    h.keepingPlace (plain_generateLinks h (chain (link :: links)) (link :: links) htarget)
  | not operand, _, htarget =>
    h.bind (h.within (not operand) (plain_generate h operand htarget)) fun _ _ => h.hinted _ _
  | logical _ operands, _, htarget =>
    h.bind (plain_generateOperands h operands htarget) fun _ _ => h.hinted _ _
  | compare _ left right, _, htarget =>
    h.bind (h.asValue (plain_generate h left htarget)) fun _ _ =>
      h.bind (h.asValue (plain_generate h right htarget)) fun _ _ => h.hinted _ _
termination_by structural e => e

theorem plain_generateArgs (h : PlainSteps classes ctx R) : ∀ args : List Expr,
    R (fun _ => True) (generateArgs classes args)
  | [] => h.pure trivial
  | arg :: args =>
    h.bind (h.fromRoot (plain_generate h arg h.root)) fun _ _ =>
      h.bind (plain_generateArgs h args) fun _ _ => h.pure trivial
termination_by structural args => args

theorem plain_generateOperands (h : PlainSteps classes ctx R) : ∀ (operands : List Expr)
    {target : Value}, target.Plain → R (fun _ => True) (generateOperands classes operands target)
  | [], _, _ => h.pure trivial
  | operand :: operands, _, htarget =>
    h.bind (h.asValue (plain_generate h operand htarget)) fun _ _ =>
      h.bind (plain_generateOperands h operands htarget) fun _ _ => h.pure trivial
termination_by structural operands => operands

theorem plain_generateLinks (h : PlainSteps classes ctx R) (whole : Expr) :
    ∀ (links : List Expr) {target : Value}, target.Plain →
      R (fun _ => True) (generateLinks classes whole links target)
  | [], _, _ => h.pure trivial
  | [last], _, htarget => plain_generate h last htarget
  | link :: next :: links, _, htarget =>
    h.bind (h.asValue (plain_generate h link htarget)) fun fragment _ =>
      h.bind (h.stepping whole link htarget) fun _ hvalue =>
        h.bind (h.setPlace (.group fragment)) fun _ _ =>
          plain_generateLinks h whole (next :: links) hvalue
termination_by structural links => links
end

/-- A property of generation against plain data is one of generation from the root, if resetting
the context has it. -/
theorem plain_generateFromRoot (h : PlainSteps classes ctx R)
    (hreset : R (fun _ => True) (Session.change Context.reset)) (e : Expr) :
    R (fun _ => True) (e.generateFromRoot classes) := by
  refine h.bind hreset fun _ _ => h.current (fun c hc => ?_) fun c c' halike => ?_
  · rw [Context.root_of_reset hc]
    exact e.plain_generate h h.root
  · rw [show c'.root = c.root by rw [halike.bindings]]

end Expr
end ObjectGraph
