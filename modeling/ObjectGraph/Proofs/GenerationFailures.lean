import Mathlib.Data.List.Chain
import ObjectGraph.Proofs.GenerationFrame

/-!
# Where generation fails

A generation that fails can be followed down to one node that failed by itself: a property or a
method that the host target does not have or the policy denies, or a chain with a link before its
last that cannot be evaluated. The error names that node, and before it the negations that the way
led through, and has no other layers.

`StepsInto` is one step of the way, with the session in which the part is rendered, and `Comes` is
the way itself. What a step does to an error is the step lemma (`raises_iff`); the main statement
follows by induction over the expression in one direction and over the way in the other.
-/
namespace ObjectGraph

variable {σ ε δ α β : Type}

namespace Action

variable {S : Type} {a : Action S ε α} {f : α → Action S ε β} {s : S} {e : ε}

/-- The action ends with that error. -/
def Raises (a : Action S ε α) (s : S) (e : ε) : Prop := (a s).1 = .error e

theorem not_raises_pure (x : α) : ¬ (pure x : Action S ε α).Raises s e := nofun

theorem raises_bind_iff :
    (a >>= f).Raises s e ↔ a.Raises s e ∨ ∃ x t, a s = (.ok x, t) ∧ (f x).Raises t e := by
  unfold Raises
  obtain ⟨d, t, ha, hbind⟩ | ⟨x, t, ha, hbind⟩ := bind_cases a f s
  · simp [hbind, ha]
  · rw [hbind, ha, or_iff_right nofun]
    constructor
    · exact fun h => ⟨x, t, rfl, h⟩
    · rintro ⟨_, _, ⟨⟩, h⟩
      exact h

theorem raises_bind_left (hf : ∀ x t, ¬ (f x).Raises t e) :
    (a >>= f).Raises s e ↔ a.Raises s e := by
  rw [raises_bind_iff, or_iff_left]
  rintro ⟨x, t, -, h⟩
  exact hf x t h

theorem raises_mapError_iff {g : ε → δ} {d : δ} :
    (a.mapError g).Raises s d ↔ ∃ e, a.Raises s e ∧ d = g e := by
  unfold Raises mapError
  cases (a s).1 <;> simp [Except.mapError, eq_comm]

end Action

theorem Preserves.eq_of_ok {γ : Type} {view : Context σ → γ} {g : Action (Session σ) ε α}
    (hg : Preserves view g) {s t : Session σ} {x : α} (h : g s = (.ok x, t)) :
    view t.context = view s.context := by
  have hs := hg s
  rwa [h] at hs

open ObjectGraph.Action

/-! ## Errors of the parts of a generation -/

def Session.placed (s : Session σ) (place : Fragment) : Session σ :=
  { s with context := { s.context with place } }

namespace Generation

variable {classes : Registry σ} {s : Session σ} {err : GenerationError}

theorem raises_asValue {g : Generation σ Fragment} :
    (asValue g).Raises s err ↔ g.Raises s err :=
  raises_bind_left fun _ _ => not_raises_pure _

theorem raises_fromRoot {g : Value → Generation σ Fragment} :
    (fromRoot g).Raises s err ↔
      (g s.context.root).Raises (s.placed .rootPlace) err := by
  have hkept : (fromRoot g).Raises s err ↔
      (asValue (g s.context.root)).Raises (s.placed .rootPlace) err := Iff.rfl
  rw [hkept, raises_asValue]

theorem raises_stepping {whole link : Expr} {here : Value} :
    (stepping classes whole link here).Raises s err ↔ ∃ cause,
      (link.evaluate classes s.context here s.world).1 = .error cause ∧
        err = .failed whole cause := raises_mapError_iff

theorem raises_checkAccess {e : Expr} {o : ObjectRef} {member : Member} {name : String} :
    (checkAccess e o member name : Generation σ Unit).Raises s err ↔
      (s.context.policy.isAccessible s.context.toBindings ⟨.object o, member, name⟩
          s.world.toShared).1 = false ∧
        err = .failed e (.inaccessible o.cls.name name) := by
  have hrun : (checkAccess e o member name s).1 =
      if (s.context.policy.isAccessible s.context.toBindings ⟨.object o, member, name⟩
          s.world.toShared).1 then .ok ()
      else .error (.failed e (.inaccessible o.cls.name name)) := by
    change ((if (s.context.policy.isAccessible s.context.toBindings ⟨.object o, member, name⟩
      s.world.toShared).1 then pure () else Action.fail _ : Generation σ Unit) _).1 = _
    split <;> rfl
  rw [Raises, hrun]
  cases (s.context.policy.isAccessible s.context.toBindings ⟨.object o, member, name⟩
      s.world.toShared).1 with
  | true => simp
  | false => simp [eq_comm]

/-- An error of several parts that are rendered in turn is the error of one of them, after those
before it. -/
theorem raises_collected (g : Expr → Generation σ Fragment)
    (collect : List Expr → Generation σ (List Fragment)) (hnil : collect [] = pure [])
    (hcons : ∀ e es, collect (e :: es) =
      g e >>= fun f => collect es >>= fun fs => pure (f :: fs)) (es : List Expr) :
    ∀ {s : Session σ}, (collect es).Raises s err ↔ ∃ before e after fs u,
      es = before ++ e :: after ∧ collect before s = (.ok fs, u) ∧ (g e).Raises u err := by
  induction es with
  | nil =>
    intro s
    rw [hnil]
    exact iff_of_false (not_raises_pure _) (by simp)
  | cons e es ih =>
    intro s
    rw [hcons, raises_bind_iff]
    constructor
    · rintro (h | ⟨f, t, hfirst, h⟩)
      · exact ⟨[], e, es, [], s, rfl, by rw [hnil]; rfl, h⟩
      · obtain ⟨before, e', after, fs, u, rfl, hbefore, h⟩ :=
          ih.1 ((raises_bind_left fun _ _ => not_raises_pure _).1 h)
        refine ⟨e :: before, e', after, f :: fs, u, rfl, ?_, h⟩
        rw [hcons, bind_of_ok hfirst, bind_of_ok hbefore]
        rfl
    · rintro ⟨_ | ⟨_, before⟩, e', after, fs, u, hsplit, hbefore, h⟩
      · rw [hnil] at hbefore
        cases hbefore
        cases hsplit
        exact .inl h
      · cases hsplit
        rw [hcons] at hbefore
        obtain ⟨f, t, hfirst, hrest⟩ := bind_eq_ok.1 hbefore
        obtain ⟨fs', v, hbefore', hlast⟩ := bind_eq_ok.1 hrest
        cases hlast
        refine .inr ⟨f, t, hfirst, (raises_bind_left fun _ _ => not_raises_pure _).2 ?_⟩
        exact ih.2 ⟨before, e', after, fs', u, rfl, hbefore', h⟩

end Generation

/-! ## The way down -/

/-- Why the member that was looked for is refused: there is none, or the policy denies it. -/
def Session.Refuses (s : Session σ) (o : ObjectRef) (name : String) (cause : EvalError) :
    Option Member → Prop
  | none => cause = .noSuchMember o.cls.name name
  | some member =>
    (s.context.policy.isAccessible s.context.toBindings ⟨.object o, member, name⟩
        s.world.toShared).1 = false ∧
      cause = .inaccessible o.cls.name name

namespace Expr

open Generation

section

variable (classes : Registry σ)

/-- A link of a chain is rendered and evaluated, and its fragment is the place of the next. -/
def Crosses (link : Expr) (here : Value) (s : Session σ) (value : Value) (s' : Session σ) : Prop :=
  ∃ fragment u world, asValue (link.generate classes here) s = (.ok fragment, u) ∧
    link.evaluate classes u.context here u.world = (.ok value, world) ∧
    s' = { Session.placed u (.group fragment) with world }

/-- The links are crossed one after the other. -/
inductive Advances : List Expr → Value → Session σ → Value → Session σ → Prop
  | done (here : Value) (s : Session σ) : Advances [] here s here s
  | cross {link : Expr} {links : List Expr} {here value there : Value} {s u s' : Session σ}
      (h : Crosses classes link here s value u) (hlinks : Advances links value u there s') :
      Advances (link :: links) here s there s'

/-- A link is reached of which the property holds, with the links after it, the value against which
it is rendered and the session then. -/
def Arrives (P : Expr → List Expr → Value → Session σ → Prop) (links : List Expr) (target : Value)
    (s : Session σ) : Prop :=
  ∃ before link after here u, links = before ++ link :: after ∧
    Advances classes before target s here u ∧ P link after here u

/-- The link is rendered and cannot be evaluated, although others come after it. -/
def Stops (cause : EvalError) (link : Expr) (after : List Expr) (here : Value)
    (s : Session σ) : Prop :=
  after ≠ [] ∧ ∃ fragment u, asValue (link.generate classes here) s = (.ok fragment, u) ∧
    (link.evaluate classes u.context here u.world).1 = .error cause

/-- The expression fails by itself, for that cause: it is a property or a method that a host target
refuses, or a chain that stops at a link before its last. -/
def FailsItself : Expr → Value → Session σ → EvalError → Prop
  | property name, .object o, s, cause =>
    s.Refuses o name cause (((classes o.cls).property? name).map (·.member o.cls))
  | method name _, .object o, s, cause =>
    s.Refuses o name cause (((classes o.cls).method? name).map (·.member o.cls name))
  | chain links, target, s, cause => Arrives classes (Stops classes cause) links target s
  | _, _, _, _ => False

/-- Rendering the expression against the target, in the session, comes to rendering the part against
`there`, in the session `u`: all that is done before has succeeded. -/
inductive StepsInto : Expr → Value → Session σ → Expr → Value → Session σ → Prop
  | key (key : Expr) (target : Value) (s : Session σ) :
      StepsInto (index key) target s key s.context.root (s.placed .rootPlace)
  | arg {name : String} {before after : List Expr} {arg : Expr} {target : Value}
      {s t u : Session σ} {fs : List Fragment}
      (hcheck : checkMethod classes (method name (before ++ arg :: after)) target name s =
        (.ok (), t))
      (hbefore : generateArgs classes before t = (.ok fs, u)) :
      StepsInto (method name (before ++ arg :: after)) target s arg u.context.root
        (u.placed .rootPlace)
  | link {before after : List Expr} {link : Expr} {target here : Value} {s u : Session σ}
      (hbefore : Advances classes before target s here u) :
      StepsInto (chain (before ++ link :: after)) target s link here u
  | negated (operand : Expr) (target : Value) (s : Session σ) :
      StepsInto (not operand) target s operand target s
  | operand (op : Connective) {before after : List Expr} {operand : Expr} {target : Value}
      {s u : Session σ} {fs : List Fragment}
      (hbefore : generateOperands classes before target s = (.ok fs, u)) :
      StepsInto (logical op (before ++ operand :: after)) target s operand target u
  | left (op : Comparison) (left right : Expr) (target : Value) (s : Session σ) :
      StepsInto (compare op left right) target s left target s
  | right (op : Comparison) {left right : Expr} {target : Value} {s u : Session σ} {f : Fragment}
      (hleft : asValue (left.generate classes target) s = (.ok f, u)) :
      StepsInto (compare op left right) target s right target u

/-- Step by step down to a subexpression; the list holds the expressions on the way to it,
outermost first. -/
inductive Comes : Expr → Value → Session σ → List Expr → Expr → Value → Session σ → Prop
  | here (e : Expr) (target : Value) (s : Session σ) : Comes e target s [] e target s
  | down {e part sub : Expr} {target there inside : Value} {s u s' : Session σ}
      {path : List Expr} (hstep : StepsInto classes e target s part there u)
      (h : Comes part there u path sub inside s') :
      Comes e target s (e :: path) sub inside s'

end

def isNot : Expr → Bool
  | not _ => true
  | _ => false

/-- What the expression makes of an error of its part. -/
def wrap (e : Expr) (inner : GenerationError) : GenerationError :=
  if e.isNot then .within e inner else inner

variable {classes : Registry σ} {s : Session σ} {target : Value} {err : GenerationError}

/-! ## The step lemma -/

theorem raises_checkProperty {e : Expr} {name : String} :
    (checkProperty classes e target name).Raises s err ↔
      ∃ cause, (property name).FailsItself classes target s cause ∧ err = .failed e cause := by
  cases target with
  | object o =>
    simp only [FailsItself, checkProperty]
    cases (classes o.cls).property? name with
    | none => simp [Raises, Session.Refuses, eq_comm]
    | some p =>
      rw [raises_checkAccess]
      simp [Session.Refuses, and_assoc]
  | _ => exact iff_of_false nofun nofun

theorem raises_checkMethod {e : Expr} {name : String} {args : List Expr} :
    (checkMethod classes e target name).Raises s err ↔
      ∃ cause, (method name args).FailsItself classes target s cause ∧ err = .failed e cause := by
  cases target with
  | object o =>
    simp only [FailsItself, checkMethod]
    cases (classes o.cls).method? name with
    | none => simp [Raises, Session.Refuses, eq_comm]
    | some m =>
      rw [raises_checkAccess]
      simp [Session.Refuses, and_assoc]
  | _ => exact iff_of_false nofun nofun

theorem not_arrives_nil {P : Expr → List Expr → Value → Session σ → Prop} :
    ¬ Arrives classes P [] target s := by
  simp [Arrives]

theorem arrives_cons_iff {P : Expr → List Expr → Value → Session σ → Prop} {link : Expr}
    {links : List Expr} :
    Arrives classes P (link :: links) target s ↔ P link links target s ∨
      ∃ value u, Crosses classes link target s value u ∧ Arrives classes P links value u := by
  constructor
  · rintro ⟨before, link', after, here, u, hsplit, hbefore, h⟩
    cases hbefore with
    | done =>
      cases hsplit
      exact .inl h
    | cross hcross hbefore =>
      rw [List.cons_append] at hsplit
      obtain ⟨rfl, hlinks⟩ := List.cons_eq_cons.1 hsplit
      exact .inr ⟨_, _, hcross, _, link', after, here, u, hlinks, hbefore, h⟩
  · rintro (h | ⟨value, u, hcross, before, link', after, here, u', rfl, hbefore, h⟩)
    · exact ⟨[], link, links, target, s, rfl, .done target s, h⟩
    · exact ⟨link :: before, link', after, here, u', rfl, .cross hcross hbefore, h⟩

theorem raises_generateLinks_cons {whole link : Expr} {links : List Expr} :
    (generateLinks classes whole (link :: links) target).Raises s err ↔
      (link.generate classes target).Raises s err ∨
      (∃ cause, Stops classes cause link links target s ∧ err = .failed whole cause) ∨
      ∃ value u, Crosses classes link target s value u ∧
        (generateLinks classes whole links value).Raises u err := by
  cases links with
  | nil =>
    refine ⟨.inl, ?_⟩
    rintro (h | ⟨cause, hstops, -⟩ | ⟨value, u, -, h⟩)
    · exact h
    · exact absurd rfl hstops.1
    · exact absurd h (not_raises_pure _)
  | cons next links =>
    rw [generateLinks, raises_bind_iff, raises_asValue]
    refine or_congr_right ?_
    constructor
    · rintro ⟨fragment, t, hfragment, h⟩
      obtain h | ⟨value, t', hstep, h⟩ := raises_bind_iff.1 h
      · obtain ⟨cause, hcause, rfl⟩ := raises_stepping.1 h
        exact .inl ⟨cause, ⟨List.cons_ne_nil _ _, fragment, t, hfragment, hcause⟩, rfl⟩
      · obtain ⟨world, hvalue, rfl⟩ := stepping_eq_ok.1 hstep
        exact .inr ⟨value, _, ⟨fragment, t, world, hfragment, hvalue, rfl⟩, h⟩
    · rintro (⟨cause, ⟨-, fragment, t, hfragment, hcause⟩, rfl⟩ |
        ⟨value, u, ⟨fragment, t, world, hfragment, hvalue, rfl⟩, h⟩)
      · exact ⟨fragment, t, hfragment,
          raises_bind_iff.2 (.inl (raises_stepping.2 ⟨cause, hcause, rfl⟩))⟩
      · exact ⟨fragment, t, hfragment, raises_bind_iff.2 (.inr
          ⟨value, { t with world }, stepping_eq_ok.2 ⟨world, hvalue, rfl⟩, h⟩)⟩

/-- An error of a chain is the error of a link that is reached, or the chain stops at one. -/
theorem raises_generateLinks (whole : Expr) (links : List Expr) :
    ∀ {target : Value} {s : Session σ},
      (generateLinks classes whole links target).Raises s err ↔
        (∃ cause, Arrives classes (Stops classes cause) links target s ∧
          err = .failed whole cause) ∨
        Arrives classes (fun link _ here u => (link.generate classes here).Raises u err)
          links target s := by
  induction links with
  | nil => exact iff_of_false (not_raises_pure _) (by simp [not_arrives_nil])
  | cons link links ih =>
    intro target s
    simp only [raises_generateLinks_cons, arrives_cons_iff, ih]
    constructor
    · rintro (h | ⟨cause, hstops, herr⟩ | ⟨value, u, hcross, ⟨cause, hstops, herr⟩ | h⟩)
      · exact .inr (.inl h)
      · exact .inl ⟨cause, .inl hstops, herr⟩
      · exact .inl ⟨cause, .inr ⟨value, u, hcross, hstops⟩, herr⟩
      · exact .inr (.inr ⟨value, u, hcross, h⟩)
    · rintro (⟨cause, hstops | ⟨value, u, hcross, hstops⟩, herr⟩ | h | ⟨value, u, hcross, h⟩)
      · exact .inr (.inl ⟨cause, hstops, herr⟩)
      · exact .inr (.inr ⟨value, u, hcross, .inl ⟨cause, hstops, herr⟩⟩)
      · exact .inl h
      · exact .inr (.inr ⟨value, u, hcross, .inr h⟩)

theorem not_raises_navigating (fragment : Fragment → Fragment) :
    ¬ (navigating fragment : Generation σ Fragment).Raises s err := nofun

theorem not_raises_hinting (hint : TypeHint) (fragment : Fragment) :
    ¬ (setHint hint >>= fun _ => pure fragment : Generation σ Fragment).Raises s err := nofun

theorem raises_property_iff {name : String} :
    ((property name).generate classes target).Raises s err ↔
      ∃ cause, (property name).FailsItself classes target s cause ∧
        err = .failed (property name) cause :=
  (raises_bind_left fun _ _ => not_raises_navigating _).trans raises_checkProperty

theorem raises_index_iff {key : Expr} :
    ((index key).generate classes target).Raises s err ↔
      (key.generate classes s.context.root).Raises (s.placed .rootPlace) err :=
  (raises_bind_left fun _ _ => not_raises_navigating _).trans raises_fromRoot

theorem raises_generateArgs_iff {args : List Expr} :
    (generateArgs classes args).Raises s err ↔ ∃ before arg after fs u,
      args = before ++ arg :: after ∧ generateArgs classes before s = (.ok fs, u) ∧
        (arg.generate classes u.context.root).Raises (u.placed .rootPlace) err := by
  rw [raises_collected (fun arg => fromRoot fun origin => arg.generate classes origin)
    (generateArgs classes) rfl (fun _ _ => rfl)]
  simp only [raises_fromRoot]

theorem raises_generateOperands_iff {operands : List Expr} :
    (generateOperands classes operands target).Raises s err ↔ ∃ before operand after fs u,
      operands = before ++ operand :: after ∧
        generateOperands classes before target s = (.ok fs, u) ∧
        (operand.generate classes target).Raises u err := by
  rw [raises_collected (fun operand => asValue (operand.generate classes target))
    (fun operands => generateOperands classes operands target) rfl (fun _ _ => rfl)]
  simp only [raises_asValue]

theorem raises_method_iff {name : String} {args : List Expr} :
    ((method name args).generate classes target).Raises s err ↔
      (∃ cause, (method name args).FailsItself classes target s cause ∧
        err = .failed (method name args) cause) ∨
      ∃ t, checkMethod classes (method name args) target name s = (.ok (), t) ∧
        (generateArgs classes args).Raises t err := by
  rw [generate, raises_bind_iff, raises_checkMethod]
  simp only [raises_bind_left fun _ _ => not_raises_navigating _]
  constructor
  · rintro (h | ⟨⟨⟩, t, hcheck, h⟩)
    · exact .inl h
    · exact .inr ⟨t, hcheck, h⟩
  · rintro (h | ⟨t, hcheck, h⟩)
    · exact .inl h
    · exact .inr ⟨(), t, hcheck, h⟩

theorem raises_chain_iff {links : List Expr} :
    ((chain links).generate classes target).Raises s err ↔
      (∃ cause, (chain links).FailsItself classes target s cause ∧
        err = .failed (chain links) cause) ∨
      Arrives classes (fun link _ here u => (link.generate classes here).Raises u err)
        links target s := by
  cases links with
  | nil => exact iff_of_false nofun (by simp [FailsItself, not_arrives_nil])
  | cons link links => exact raises_generateLinks _ _

theorem raises_not_iff {operand : Expr} :
    ((not operand).generate classes target).Raises s err ↔
      ∃ inner, (operand.generate classes target).Raises s inner ∧
        err = .within (not operand) inner :=
  (raises_bind_left fun _ _ => not_raises_hinting _ _).trans raises_mapError_iff

theorem raises_logical_iff {op : Connective} {operands : List Expr} :
    ((logical op operands).generate classes target).Raises s err ↔
      (generateOperands classes operands target).Raises s err :=
  raises_bind_left fun _ _ => not_raises_hinting _ _

theorem raises_compare_iff {op : Comparison} {left right : Expr} :
    ((compare op left right).generate classes target).Raises s err ↔
      (left.generate classes target).Raises s err ∨
      ∃ f u, asValue (left.generate classes target) s = (.ok f, u) ∧
        (right.generate classes target).Raises u err := by
  rw [generate, raises_bind_iff, raises_asValue]
  simp only [raises_bind_left fun _ _ => not_raises_hinting _ _, raises_asValue]

theorem FailsItself.raises {e : Expr} {cause : EvalError}
    (h : e.FailsItself classes target s cause) :
    (e.generate classes target).Raises s (.failed e cause) := by
  cases e with
  | property name => exact raises_property_iff.2 ⟨cause, h, rfl⟩
  | method name args => exact raises_method_iff.2 (.inl ⟨cause, h, rfl⟩)
  | chain links => exact raises_chain_iff.2 (.inl ⟨cause, h, rfl⟩)
  | _ => exact h.elim

theorem StepsInto.raises {e part : Expr} {there : Value} {u : Session σ}
    {inner : GenerationError} (hstep : StepsInto classes e target s part there u)
    (h : (part.generate classes there).Raises u inner) :
    (e.generate classes target).Raises s (e.wrap inner) := by
  cases hstep with
  | key => exact raises_index_iff.2 h
  | arg hcheck hbefore =>
    exact raises_method_iff.2 (.inr ⟨_, hcheck,
      raises_generateArgs_iff.2 ⟨_, part, _, _, _, rfl, hbefore, h⟩⟩)
  | link hbefore => exact raises_chain_iff.2 (.inr ⟨_, part, _, there, u, rfl, hbefore, h⟩)
  | negated => exact raises_not_iff.2 ⟨inner, h, rfl⟩
  | operand op hbefore =>
    exact raises_logical_iff.2 (raises_generateOperands_iff.2 ⟨_, part, _, _, u, rfl, hbefore, h⟩)
  | left => exact raises_compare_iff.2 (.inl h)
  | right op hleft => exact raises_compare_iff.2 (.inr ⟨_, u, hleft, h⟩)

/-- The step lemma: an expression fails by itself, or a part fails that is rendered for it, and
only a negation adds a layer to the error of its part. -/
theorem raises_iff (e : Expr) :
    (e.generate classes target).Raises s err ↔
      (∃ cause, e.FailsItself classes target s cause ∧ err = .failed e cause) ∨
      ∃ part there u inner, StepsInto classes e target s part there u ∧
        (part.generate classes there).Raises u inner ∧ err = e.wrap inner := by
  constructor
  · intro h
    cases e with
    | property name => exact .inl (raises_property_iff.1 h)
    | index key => exact .inr ⟨key, _, _, err, .key key target s, raises_index_iff.1 h, rfl⟩
    | method name args =>
      refine (raises_method_iff.1 h).imp_right ?_
      rintro ⟨t, hcheck, hargs⟩
      obtain ⟨before, arg, after, fs, u, rfl, hbefore, h⟩ := raises_generateArgs_iff.1 hargs
      exact ⟨arg, _, _, err, .arg hcheck hbefore, h, rfl⟩
    | chain links =>
      refine (raises_chain_iff.1 h).imp_right ?_
      rintro ⟨before, link, after, here, u, rfl, hbefore, h⟩
      exact ⟨link, here, u, err, .link hbefore, h, rfl⟩
    | not operand =>
      obtain ⟨inner, hinner, rfl⟩ := raises_not_iff.1 h
      exact .inr ⟨operand, target, s, inner, .negated operand target s, hinner, rfl⟩
    | logical op operands =>
      obtain ⟨before, operand, after, fs, u, rfl, hbefore, h⟩ :=
        raises_generateOperands_iff.1 (raises_logical_iff.1 h)
      exact .inr ⟨operand, target, u, err, .operand op hbefore, h, rfl⟩
    | compare op left right =>
      obtain h | ⟨f, u, hleft, h⟩ := raises_compare_iff.1 h
      · exact .inr ⟨left, target, s, err, .left op left right target s, h, rfl⟩
      · exact .inr ⟨right, target, u, err, .right op hleft, h, rfl⟩
    | _ => cases h
  · rintro (⟨cause, hfails, rfl⟩ | ⟨part, there, u, inner, hstep, h, rfl⟩)
    · exact hfails.raises
    · exact hstep.raises h

/-! ## The run lemma -/

theorem StepsInto.mem_children {e part : Expr} {there : Value} {u : Session σ}
    (h : StepsInto classes e target s part there u) : part ∈ e.children := by
  cases h <;> simp [children]

/-- An error comes from an expression that fails by itself, through what is on the way to it. -/
theorem raises_iff_comes (e : Expr) : ∀ {target : Value} {s : Session σ} {err : GenerationError},
    (e.generate classes target).Raises s err ↔ ∃ path sub there s' cause,
      Comes classes e target s path sub there s' ∧ sub.FailsItself classes there s' cause ∧
        err = path.foldr wrap (.failed sub cause) := by
  induction e using of_children with
  | h e ih =>
    intro target s err
    rw [raises_iff]
    constructor
    · rintro (⟨cause, hfails, rfl⟩ | ⟨part, there, u, inner, hstep, h, rfl⟩)
      · exact ⟨[], e, target, s, cause, .here e target s, hfails, rfl⟩
      · obtain ⟨path, sub, inside, s', cause, hcomes, hfails, rfl⟩ :=
          (ih part hstep.mem_children).1 h
        exact ⟨e :: path, sub, inside, s', cause, .down hstep hcomes, hfails, rfl⟩
    · rintro ⟨path, sub, inside, s', cause, hcomes, hfails, rfl⟩
      cases hcomes with
      | here => exact .inl ⟨cause, hfails, rfl⟩
      | down hstep hcomes =>
        exact .inr ⟨_, _, _, _, hstep, (ih _ hstep.mem_children).2
          ⟨_, sub, inside, s', cause, hcomes, hfails, rfl⟩, rfl⟩

/-! ## What stays the same on the way -/

theorem generateArgs_reset (args : List Expr) :
    Preserves Context.reset (generateArgs classes args) := by
  induction args with
  | nil => exact .pure []
  | cons arg args ih => exact (fromRoot_reset arg).bind fun _ => ih.bind fun _ => .pure _

theorem generateOperands_reset (operands : List Expr) (target : Value) :
    Preserves Context.reset (generateOperands classes operands target) := by
  induction operands with
  | nil => exact .pure []
  | cons operand operands ih =>
    exact (asValue_reset operand target).bind fun _ => ih.bind fun _ => .pure _

theorem Crosses.reset {link : Expr} {here value : Value} {s u : Session σ}
    (h : Crosses classes link here s value u) : u.context.reset = s.context.reset := by
  obtain ⟨fragment, t, world, hfragment, -, rfl⟩ := h
  have hkept := (link.asValue_reset here).eq_of_ok hfragment
  exact hkept

theorem Advances.reset {links : List Expr} {here : Value} {u : Session σ}
    (h : Advances classes links target s here u) : u.context.reset = s.context.reset := by
  induction h with
  | done => rfl
  | cross hcross _ ih => exact ih.trans hcross.reset

theorem StepsInto.reset {e part : Expr} {there : Value} {u : Session σ}
    (h : StepsInto classes e target s part there u) : u.context.reset = s.context.reset := by
  cases h with
  | key | negated | left => rfl
  | arg hcheck hbefore =>
    have hargs := (generateArgs_reset _).eq_of_ok hbefore
    have hchecked := (preserves_checkMethod _ _ _).eq_of_ok hcheck
    exact hargs.trans (congrArg Context.reset hchecked)
  | link hbefore => exact hbefore.reset
  | operand op hbefore => exact (generateOperands_reset _ _).eq_of_ok hbefore
  | right op hleft => exact (asValue_reset _ _).eq_of_ok hleft

theorem Comes.reset {e sub : Expr} {there : Value} {s' : Session σ} {path : List Expr}
    (h : Comes classes e target s path sub there s') : s'.context.reset = s.context.reset := by
  induction h with
  | here => rfl
  | down hstep _ ih => exact ih.trans hstep.reset

/-- From the expression to one of its parts and on to the subexpression. -/
def LeadsTo (e : Expr) (path : List Expr) (sub : Expr) : Prop :=
  (path ++ [sub]).head? = some e ∧ (path ++ [sub]).IsChain fun e part => part ∈ e.children

theorem Comes.leadsTo {e sub : Expr} {there : Value} {s' : Session σ} {path : List Expr}
    (h : Comes classes e target s path sub there s') : e.LeadsTo path sub := by
  induction h with
  | here e => exact ⟨rfl, .singleton e⟩
  | down hstep _ ih =>
    refine ⟨rfl, List.isChain_cons.2 ⟨fun part hpart => ?_, ih.2⟩⟩
    cases ih.1.symm.trans hpart
    exact hstep.mem_children

/-! ## The layers of the error -/

theorem nesting_wraps (path : List Expr) (sub : Expr) (cause : EvalError) :
    (path.foldr wrap (.failed sub cause)).nesting.map GenerationError.expression =
      path.filter isNot ++ [sub] := by
  induction path with
  | nil => rfl
  | cons e path ih =>
    rw [List.foldr_cons, wrap, List.filter_cons]
    split
    · rw [GenerationError.nesting, List.map_cons, ih]
      rfl
    · exact ih

theorem origin_wraps (path : List Expr) (sub : Expr) (cause : EvalError) :
    (path.foldr wrap (.failed sub cause)).origin = cause := by
  induction path with
  | nil => rfl
  | cons e path ih =>
    rw [List.foldr_cons, wrap]
    split
    · exact ih
    · exact ih

end Expr

namespace GenerationError

theorem nesting_ne_nil (err : GenerationError) : err.nesting ≠ [] := by
  cases err <;> exact List.cons_ne_nil _ _

/-- An error is known from the expressions that its layers name and the failure that started it. -/
theorem eq_of_nesting : ∀ {err err' : GenerationError},
    err.nesting.map expression = err'.nesting.map expression → err.origin = err'.origin →
      err = err'
  | failed e cause, failed e' cause', hlayers, horigin => by
    cases hlayers
    cases horigin
    rfl
  | within e inner, within e' inner', hlayers, horigin => by
    obtain ⟨he, hinner⟩ := List.cons_eq_cons.1 hlayers
    change e = e' at he
    rw [he, eq_of_nesting hinner horigin]
  | failed e cause, within e' inner, hlayers, _ => by
    have hinner := (List.cons_eq_cons.1 hlayers).2
    exact absurd (List.map_eq_nil_iff.1 hinner.symm) inner.nesting_ne_nil
  | within e inner, failed e' cause, hlayers, _ => by
    have hinner := (List.cons_eq_cons.1 hlayers).2
    exact absurd (List.map_eq_nil_iff.1 hinner) inner.nesting_ne_nil

end GenerationError

/-- One of the errors that are reached from an error by asking for causes. -/
inductive Cause
  /-- With the text of the expression that cannot be rendered. -/
  | generation (expression : String)
  | evaluation (e : EvalError)
  | host (message : String)

def EvalError.hostCauses : EvalError → List String
  | host _ causes => causes
  | _ => []

/-- The error itself and its causes, one the cause of the one before it. -/
def GenerationError.causes : GenerationError → List Cause
  | failed e cause => .generation e.display :: .evaluation cause :: cause.hostCauses.map .host
  | within e inner => .generation e.display :: inner.causes

theorem GenerationError.causes_eq (err : GenerationError) :
    err.causes = (err.nesting.map expression).map (fun e => .generation e.display) ++
      .evaluation err.origin :: err.origin.hostCauses.map .host := by
  induction err with
  | failed e cause => rfl
  | within e inner ih =>
    rw [causes, ih]
    rfl

/-- An error of a generation names the expression that failed by itself, before it the negations
that the way down to it led through, and nothing else; its cause is the failure of that
expression. -/
theorem generation_fails_iff (classes : Registry σ) (e : Expr) (target : Value) (s : Session σ)
    (err : GenerationError) :
    (e.generate classes target s).1 = .error err ↔
      ∃ path sub there s' cause, Expr.Comes classes e target s path sub there s' ∧
        e.LeadsTo path sub ∧ s'.context.reset = s.context.reset ∧
        sub.FailsItself classes there s' cause ∧ err.origin = cause ∧
        err.nesting.map GenerationError.expression = path.filter Expr.isNot ++ [sub] ∧
        err.causes = (path.filter Expr.isNot ++ [sub]).map (fun e => .generation e.display) ++
          .evaluation cause :: cause.hostCauses.map .host := by
  refine e.raises_iff_comes.trans ?_
  constructor
  · rintro ⟨path, sub, there, s', cause, hcomes, hfails, rfl⟩
    have hlayers := Expr.nesting_wraps path sub cause
    have horigin := Expr.origin_wraps path sub cause
    refine ⟨path, sub, there, s', cause, hcomes, hcomes.leadsTo, hcomes.reset, hfails, horigin,
      hlayers, ?_⟩
    rw [GenerationError.causes_eq, hlayers, horigin]
  · rintro ⟨path, sub, there, s', cause, hcomes, -, -, hfails, horigin, hlayers, -⟩
    refine ⟨path, sub, there, s', cause, hcomes, hfails, GenerationError.eq_of_nesting ?_ ?_⟩
    · rw [hlayers, Expr.nesting_wraps]
    · rw [horigin, Expr.origin_wraps]

example (o : ObjectRef) (s : Session σ) :
    ((Expr.index (.not (.not (.property "title")))).generate (fun _ => .build []) (.integer 3)
      { s with context := { s.context with root := .object o } }).1 =
      .error (.within (.not (.not (.property "title"))) (.within (.not (.property "title"))
        (.failed (.property "title") (.noSuchMember o.cls.name "title")))) := rfl

end ObjectGraph
