import ObjectGraph.Generation
import ObjectGraph.Proofs.Sequencing

/-!
# Relations kept by assignment and by generation

What `Sequencing` does for evaluation is done here for the two actions that may change the
context: a relation between actions of a session that sequencing keeps and that holds of their
steps holds of assignment and of generation.
-/
namespace ObjectGraph

variable {σ : Type}

/-! ## Assignment -/

/-- What a relation has to hold of to hold of assignment. -/
structure AssignRelated (classes classes' : Registry σ)
    (R : ∀ ⦃α : Type⦄, Action (Session σ) EvalError α → Action (Session σ) EvalError α → Prop) :
    Prop where
  fail (what : String) :
    R (Action.fail (.notAssignable what) : Action (Session σ) EvalError Unit)
      (Action.fail (.notAssignable what))
  setVariable (name : String) (value : Value) :
    R (Session.change fun ctx => ctx.setVariable name value)
      (Session.change fun ctx => ctx.setVariable name value)
  key (e : Expr) :
    R (Session.reading fun ctx => e.evaluate classes ctx ctx.root)
      (Session.reading fun ctx => e.evaluate classes' ctx ctx.root)
  link (e : Expr) (here : Value) :
    R (Session.reading fun ctx => e.evaluate classes ctx here)
      (Session.reading fun ctx => e.evaluate classes' ctx here)
  property (here : Value) (name : String) (value : Value) :
    R (Session.reading fun ctx => Navigation.setProperty classes ctx here name value)
      (Session.reading fun ctx => Navigation.setProperty classes' ctx here name value)
  index (here key value : Value) :
    R (Session.reading fun ctx => Navigation.setIndex classes ctx here key value)
      (Session.reading fun ctx => Navigation.setIndex classes' ctx here key value)

section Assignment

variable {classes classes' : Registry σ}
  {R : ∀ ⦃α : Type⦄, Action (Session σ) EvalError α → Action (Session σ) EvalError α → Prop}

namespace Expr

mutual
theorem related_assign (hR : Sequenced R) (h : AssignRelated classes classes' R) :
    ∀ (e : Expr) (here value : Value),
      R (e.assign classes here value) (e.assign classes' here value)
  | var name, _, value => h.setVariable name value
  | property name, here, value => h.property here name value
  | index key, here, value => hR.bind (h.key key) fun k => h.index here k value
  | chain links, here, value => related_assignLinks hR h links here value
  | const _, _, _ => h.fail _
  | root, _, _ => h.fail _
  | source, _, _ => h.fail _
  | subscript _, _, _ => h.fail _
  | method _ _, _, _ => h.fail _
  | not _, _, _ => h.fail _
  | logical _ _, _, _ => h.fail _
  | compare _ _ _, _, _ => h.fail _
termination_by structural e => e

theorem related_assignLinks (hR : Sequenced R) (h : AssignRelated classes classes' R) :
    ∀ (links : List Expr) (here value : Value),
      R (assignLinks classes links here value) (assignLinks classes' links here value)
  | [], _, _ => h.fail _
  | [last], here, value => related_assign hR h last here value
  | link :: next :: links, here, value =>
    hR.bind (h.link link here) fun target => related_assignLinks hR h (next :: links) target value
termination_by structural links => links
end

end Expr
end Assignment

/-! ## Generation -/

/-- Two contexts that generation cannot tell apart by looking at them. -/
structure Context.Alike (ctx ctx' : Context σ) : Prop where
  bindings : ctx'.toBindings = ctx.toBindings
  currentType : ctx'.currentType = ctx.currentType
  place : ctx'.place = ctx.place

theorem Context.Alike.refl (ctx : Context σ) : ctx.Alike ctx := ⟨rfl, rfl, rfl⟩

def Context.withPolicy (ctx : Context σ) (P : Policy σ) : Context σ := { ctx with policy := P }

def Session.withPolicy (s : Session σ) (P : Policy σ) : Session σ :=
  { s with context := s.context.withPolicy P }

theorem Context.alike_withPolicy (ctx : Context σ) (P : Policy σ) :
    ctx.Alike (ctx.withPolicy P) := ⟨rfl, rfl, rfl⟩

/-- What a relation has to hold of to hold of the checks of a member. -/
structure CheckRelated (R : ∀ ⦃α : Type⦄, Generation σ α → Generation σ α → Prop) : Prop where
  access (e : Expr) (o : ObjectRef) (member : Member) (name : String) :
    R (Generation.checkAccess e o member name) (Generation.checkAccess e o member name)
  missing (e : Expr) (target name : String) :
    R (Action.fail (.failed e (.noSuchMember target name)) : Generation σ Unit)
      (Action.fail (.failed e (.noSuchMember target name)))

namespace CheckRelated

variable {R : ∀ ⦃α : Type⦄, Generation σ α → Generation σ α → Prop}

theorem property (hR : Sequenced R) (h : CheckRelated R) (classes : Registry σ) (e : Expr)
    (target : Value) (name : String) :
    R (Generation.checkProperty classes e target name)
      (Generation.checkProperty classes e target name) := by
  unfold Generation.checkProperty
  split
  · split
    · exact h.access e _ _ name
    · exact h.missing e _ name
  · exact hR.pure ()

theorem method (hR : Sequenced R) (h : CheckRelated R) (classes : Registry σ) (e : Expr)
    (target : Value) (name : String) :
    R (Generation.checkMethod classes e target name)
      (Generation.checkMethod classes e target name) := by
  unfold Generation.checkMethod
  split
  · split
    · exact h.access e _ _ name
    · exact h.missing e _ name
  · exact hR.pure ()

end CheckRelated

/-- What a relation has to hold of to hold of generation. -/
structure RenderRelated (classes classes' : Registry σ)
    (R : ∀ ⦃α : Type⦄, Generation σ α → Generation σ α → Prop) : Prop where
  current {α : Type} {f f' : Context σ → Generation σ α}
    (h : ∀ ctx ctx' : Context σ, ctx.Alike ctx' → R (f ctx) (f' ctx')) :
    R (Session.current >>= f) (Session.current >>= f')
  setHint (hint : TypeHint) : R (Generation.setHint hint) (Generation.setHint hint)
  setPlace (place : Fragment) : R (Generation.setPlace place) (Generation.setPlace place)
  keepingPlace {α : Type} {g g' : Generation σ α} (h : R g g') :
    R (Generation.keepingPlace g) (Generation.keepingPlace g')
  within (e : Expr) {g g' : Generation σ Fragment} (h : R g g') :
    R (g.mapError (.within e)) (g'.mapError (.within e))
  checkProperty (e : Expr) (target : Value) (name : String) :
    R (Generation.checkProperty classes e target name)
      (Generation.checkProperty classes' e target name)
  checkMethod (e : Expr) (target : Value) (name : String) :
    R (Generation.checkMethod classes e target name) (Generation.checkMethod classes' e target name)
  stepping (whole link : Expr) (here : Value) :
    R (Generation.stepping classes whole link here) (Generation.stepping classes' whole link here)

section Generation

variable {classes classes' : Registry σ} {R : ∀ ⦃α : Type⦄, Generation σ α → Generation σ α → Prop}

namespace RenderRelated

theorem place (hR : Sequenced R) (h : RenderRelated classes classes' R) :
    R Generation.place Generation.place :=
  h.current fun ctx ctx' halike => by
    rw [halike.place]
    exact hR.pure ctx.place

theorem asValue (hR : Sequenced R) (h : RenderRelated classes classes' R)
    {g g' : Generation σ Fragment} (hg : R g g') :
    R (Generation.asValue g) (Generation.asValue g') :=
  hR.bind hg fun fragment => h.current fun ctx ctx' halike => by
    rw [halike.currentType]
    exact hR.pure (fragment.asValue ctx.currentType)

theorem fromRoot (hR : Sequenced R) (h : RenderRelated classes classes' R)
    {g g' : Value → Generation σ Fragment} (hg : ∀ origin, R (g origin) (g' origin)) :
    R (Generation.fromRoot g) (Generation.fromRoot g') :=
  h.current fun ctx ctx' halike => h.keepingPlace <|
    hR.bind (h.setPlace .rootPlace) fun _ => by
      rw [show ctx'.root = ctx.root by rw [halike.bindings]]
      exact h.asValue hR (hg ctx.root)

theorem navigating (hR : Sequenced R) (h : RenderRelated classes classes' R)
    (fragment : Fragment → Fragment) :
    R (Generation.navigating fragment) (Generation.navigating fragment) :=
  hR.bind (h.setHint .dynamic) fun _ => hR.bind (h.place hR) fun here => hR.pure (fragment here)

end RenderRelated

namespace Expr

mutual
theorem related_generate (hR : Sequenced R) (h : RenderRelated classes classes' R) :
    ∀ (e : Expr) (target : Value), R (e.generate classes target) (e.generate classes' target)
  | const literal, _ => hR.bind (h.setHint _) fun _ => hR.pure (Fragment.ofLiteral literal)
  | root, _ => h.current fun ctx ctx' halike => by
    rw [show ctx'.root = ctx.root by rw [halike.bindings]]
    exact hR.bind (h.setHint _) fun _ => hR.pure (Fragment.clone .rootPlace)
  | source, _ =>
    hR.bind (h.setHint _) fun _ => hR.bind (h.place hR) fun here => hR.pure (Fragment.clone here)
  | var name, _ => h.current fun ctx ctx' halike => by
    rw [show ctx'.vars = ctx.vars by rw [halike.bindings]]
    exact hR.bind (h.setHint _) fun _ => hR.pure (Fragment.var name)
  | property name, target =>
    hR.bind (h.checkProperty (property name) target name) fun _ => h.navigating hR _
  | index key, _ =>
    hR.bind (h.fromRoot hR fun origin => related_generate hR h key origin) fun _ =>
      h.navigating hR _
  | subscript _, _ => h.navigating hR _
  | method name args, target =>
    hR.bind (h.checkMethod (method name args) target name) fun _ =>
      hR.bind (related_generateArgs hR h args) fun _ => h.navigating hR _
  | chain [], _ => hR.bind (h.setHint .dynamic) fun _ => hR.pure Fragment.blank
  | chain (link :: links), target =>
    h.keepingPlace (related_generateLinks hR h (chain (link :: links)) (link :: links) target)
  | not operand, target =>
    hR.bind (h.within (not operand) (related_generate hR h operand target)) fun fragment =>
      hR.bind (h.setHint .boolean) fun _ => hR.pure (Fragment.not fragment.orNull)
  | logical op operands, target =>
    hR.bind (related_generateOperands hR h operands target) fun fragments =>
      hR.bind (h.setHint .dynamic) fun _ => hR.pure (Fragment.guards op fragments)
  | compare op left right, target =>
    hR.bind (h.asValue hR (related_generate hR h left target)) fun _ =>
      hR.bind (h.asValue hR (related_generate hR h right target)) fun _ =>
        hR.bind (h.setHint .boolean) fun _ => hR.pure _
termination_by structural e => e

theorem related_generateArgs (hR : Sequenced R) (h : RenderRelated classes classes' R) :
    ∀ args : List Expr, R (generateArgs classes args) (generateArgs classes' args)
  | [] => hR.pure []
  | arg :: args =>
    hR.bind (h.fromRoot hR fun origin => related_generate hR h arg origin) fun fragment =>
      hR.bind (related_generateArgs hR h args) fun fragments => hR.pure (fragment :: fragments)
termination_by structural args => args

theorem related_generateOperands (hR : Sequenced R) (h : RenderRelated classes classes' R) :
    ∀ (operands : List Expr) (target : Value),
      R (generateOperands classes operands target) (generateOperands classes' operands target)
  | [], _ => hR.pure []
  | operand :: operands, target =>
    hR.bind (h.asValue hR (related_generate hR h operand target)) fun fragment =>
      hR.bind (related_generateOperands hR h operands target) fun fragments =>
        hR.pure (fragment :: fragments)
termination_by structural operands => operands

theorem related_generateLinks (hR : Sequenced R) (h : RenderRelated classes classes' R)
    (whole : Expr) :
    ∀ (links : List Expr) (target : Value),
      R (generateLinks classes whole links target) (generateLinks classes' whole links target)
  | [], _ => hR.pure Fragment.blank
  | [last], target => related_generate hR h last target
  | link :: next :: links, target =>
    hR.bind (h.asValue hR (related_generate hR h link target)) fun fragment =>
      hR.bind (h.stepping whole link target) fun value =>
        hR.bind (h.setPlace (.group fragment)) fun _ =>
          related_generateLinks hR h whole (next :: links) value
termination_by structural links => links
end

end Expr
end Generation
end ObjectGraph
