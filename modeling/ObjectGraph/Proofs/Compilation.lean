import Mathlib.Data.List.Forall2
import ObjectGraph.Proofs.PlainEvaluation
import ObjectGraph.Proofs.TextMeaning

/-!
# Fragments compute what evaluation comes to

Over plain data a generated fragment, as a value, comes to the result or the error that the
interpreter comes to. The simulation carries the place from which fragments navigate, which
computes the value they are rendered against, and the hint, which tells a native truth value from
a value. What holds of the fragment holds of its text, for it has no blank part and so it is read
back.
-/
namespace ObjectGraph

variable {σ : Type}

/-- Neither the root nor a variable is a boolean. -/
structure Context.Booleanless (ctx : Context σ) : Prop where
  root : ctx.root.typeHint ≠ .boolean
  vars {name : String} {v : Value} : ctx.vars.find? name = some v → v.typeHint ≠ .boolean

namespace Expr

mutual
/-- Without an empty chain and without the source. -/
def isCompilable : Expr → Bool
  | source => false
  | index key => key.isCompilable
  | method _ args => allCompilable args
  | chain links => !links.isEmpty && allCompilable links
  | not operand => operand.isCompilable
  | logical _ operands => allCompilable operands
  | compare _ left right => left.isCompilable && right.isCompilable
  | _ => true
termination_by structural e => e

def allCompilable : List Expr → Bool
  | [] => true
  | e :: es => e.isCompilable && allCompilable es
termination_by structural es => es
end

end Expr

/-! ## Fragments without blank parts -/

namespace Fragment

variable {allowed : Binary64 → Bool}

theorem ne_blank_of_isWhole {f : Fragment} (h : f.isWhole allowed = true) : f ≠ blank := by
  rintro rfl
  cases h

theorem isWhole_asValue {f : Fragment} (h : f.isWhole allowed = true) (hint : Option TypeHint) :
    (f.asValue hint).isWhole allowed = true := by
  rw [asValue_of_ne_blank (ne_blank_of_isWhole h)]
  split
  · exact h
  · exact h

theorem isWhole_orNull {f : Fragment} (h : f.isWhole allowed = true) :
    f.orNull.isWhole allowed = true := by
  rw [orNull_of_ne_blank (ne_blank_of_isWhole h)]
  exact h

theorem isWhole_guards (op : Connective) : ∀ {fs : List Fragment}, allWhole allowed fs = true →
    (guards op fs).isWhole allowed = true
  | [], _ => rfl
  | [_], h => (Bool.and_eq_true_iff.1 h).1
  | _ :: _ :: _, h => by
    obtain ⟨hfirst, hrest⟩ := Bool.and_eq_true_iff.1 h
    exact Bool.and_eq_true_iff.2 ⟨hfirst, isWhole_guards op hrest⟩

theorem isWhole_ofLiteral {literal : Literal}
    (h : ∀ x, literal = .float x → allowed x = true) :
    (ofLiteral literal).isWhole allowed = true := by
  cases literal with
  | float x => exact h x rfl
  | _ => rfl

end Fragment

namespace Expr

mutual
/-- The doubles among the constants of an expression. -/
def doubles : Expr → List Binary64
  | const (.float x) => [x]
  | index key => key.doubles
  | method _ args => doublesAll args
  | chain links => doublesAll links
  | not operand => operand.doubles
  | logical _ operands => doublesAll operands
  | compare _ left right => left.doubles ++ right.doubles
  | _ => []
termination_by structural e => e

def doublesAll : List Expr → List Binary64
  | [] => []
  | e :: es => e.doubles ++ doublesAll es
termination_by structural es => es
end

section

variable {allowed : Binary64 → Bool}

mutual
/-- Only an empty chain has a blank fragment, and the bindings stand nowhere but as places. -/
theorem isWhole_of_renders : ∀ {e : Expr} {place f : Fragment}, Renders e place f →
    e.isCompilable = true → (∀ x ∈ e.doubles, allowed x = true) →
      place.isOrigin allowed = true → f.isWhole allowed = true
  | _, _, _, .const literal _, _, hdoubles, _ =>
    Fragment.isWhole_ofLiteral fun x hx => hdoubles x (hx ▸ List.mem_singleton_self x)
  | _, _, _, .root _, _, _, _ => rfl
  | _, _, _, .source _, he, _, _ => by cases he
  | _, _, _, .var _ _, _, _, _ => rfl
  | _, _, _, .property _ _, _, _, hplace => hplace
  | _, _, _, .index hkey hint _, he, hdoubles, hplace =>
    Bool.and_eq_true_iff.2
      ⟨hplace, Fragment.isWhole_asValue (isWhole_of_renders hkey he hdoubles rfl) hint⟩
  | _, _, _, .subscript _ _, _, _, hplace => hplace
  | _, _, _, .method _ hargs _, he, hdoubles, hplace =>
    Bool.and_eq_true_iff.2 ⟨hplace, allWhole_of_rendersAll hargs he hdoubles rfl⟩
  | _, _, _, .empty _, he, _, _ => by cases he
  | chain (_ :: _), _, _, .chain hlinks, he, hdoubles, hplace =>
    isWhole_of_rendersLinks hlinks he hdoubles hplace
  | _, _, _, .not hoperand, he, hdoubles, hplace =>
    Fragment.isWhole_orNull (isWhole_of_renders hoperand he hdoubles hplace)
  | _, _, _, .logical op hoperands, he, hdoubles, hplace =>
    Fragment.isWhole_guards op (allWhole_of_rendersAll hoperands he hdoubles hplace)
  | _, _, _, .compare op hleft leftHint hright rightHint, he, hdoubles, hplace => by
    obtain ⟨heLeft, heRight⟩ := Bool.and_eq_true_iff.1 he
    obtain ⟨hdoublesLeft, hdoublesRight⟩ := List.forall_mem_append.1 hdoubles
    have hl :=
      Fragment.isWhole_asValue (isWhole_of_renders hleft heLeft hdoublesLeft hplace) leftHint
    have hr :=
      Fragment.isWhole_asValue (isWhole_of_renders hright heRight hdoublesRight hplace) rightHint
    cases op with
    | equal => exact Bool.and_eq_true_iff.2 ⟨hl, hr⟩
    | notEqual => exact Bool.and_eq_true_iff.2 ⟨hl, hr⟩

theorem allWhole_of_rendersAll : ∀ {es : List Expr} {place : Fragment} {fs : List Fragment},
    RendersAll es place fs → allCompilable es = true → (∀ x ∈ doublesAll es, allowed x = true) →
      place.isOrigin allowed = true → Fragment.allWhole allowed fs = true
  | _, _, _, .nil _, _, _, _ => rfl
  | _, _, _, .cons h hint hs, he, hdoubles, hplace => by
    obtain ⟨heFirst, heRest⟩ := Bool.and_eq_true_iff.1 he
    obtain ⟨hdoublesFirst, hdoublesRest⟩ := List.forall_mem_append.1 hdoubles
    exact Bool.and_eq_true_iff.2
      ⟨Fragment.isWhole_asValue (isWhole_of_renders h heFirst hdoublesFirst hplace) hint,
        allWhole_of_rendersAll hs heRest hdoublesRest hplace⟩

theorem isWhole_of_rendersLinks : ∀ {links : List Expr} {place f : Fragment},
    RendersLinks links place f → allCompilable links = true →
      (∀ x ∈ doublesAll links, allowed x = true) → place.isOrigin allowed = true →
        f.isWhole allowed = true
  | _, _, _, .last h, he, hdoubles, hplace =>
    isWhole_of_renders h (Bool.and_eq_true_iff.1 he).1 (List.forall_mem_append.1 hdoubles).1 hplace
  | _, _, _, .link h hint hlinks, he, hdoubles, hplace => by
    obtain ⟨heFirst, heRest⟩ := Bool.and_eq_true_iff.1 he
    obtain ⟨hdoublesFirst, hdoublesRest⟩ := List.forall_mem_append.1 hdoubles
    have hlink := Fragment.isWhole_asValue (isWhole_of_renders h heFirst hdoublesFirst hplace) hint
    exact isWhole_of_rendersLinks hlinks heRest hdoublesRest hlink
end

end
end Expr

/-! ## What a fragment has in common with an evaluation -/

section

variable (classes : Registry σ) (ctx : Context σ) (target : Value)

/-- The fragment is a program that comes to the value. -/
def Stands (f : Fragment) (v : Value) : Prop :=
  ∃ run, f.meaning classes ctx target = some (.value run) ∧ Steady run (.ok v)

/-- The fragment is a value that agrees with the evaluation. -/
def Computes (f : Fragment) (a : Run σ EvalError Value) : Prop :=
  ∃ run, f.meaning classes ctx target = some (.value run) ∧ Agree Value.Plain a run

/-- The fragment is a native truth value that agrees with the evaluation. -/
def Decides (f : Fragment) (a : Run σ EvalError Value) : Prop :=
  ∃ run, f.meaning classes ctx target = some (.truth run) ∧
    Agree Value.Plain a (run >>= fun b => pure (.boolean b))

/-- The fragment agrees with the evaluation in the way that its hint says. -/
structure Matches (hint : Option TypeHint) (f : Fragment) (a : Run σ EvalError Value) : Prop where
  native : hint = some .boolean → Decides classes ctx target f a
  value : hint ≠ some .boolean → Computes classes ctx target f a

end

section

variable {classes : Registry σ} {ctx : Context σ} {target : Value} {hint : Option TypeHint}
  {f : Fragment} {a : Run σ EvalError Value}

theorem Computes.matches (h : Computes classes ctx target f a) (hhint : hint ≠ some .boolean) :
    Matches classes ctx target hint f a :=
  ⟨fun hboolean => absurd hboolean hhint, fun _ => h⟩

theorem Decides.matches (h : Decides classes ctx target f a) :
    Matches classes ctx target (some .boolean) f a :=
  ⟨fun _ => h, fun hhint => absurd rfl hhint⟩

namespace Matches

theorem ne_blank (h : Matches classes ctx target hint f a) : f ≠ .blank := by
  rintro rfl
  by_cases hhint : hint = some .boolean
  · obtain ⟨_, hmeaning, -⟩ := h.native hhint
    cases hmeaning
  · obtain ⟨_, hmeaning, -⟩ := h.value hhint
    cases hmeaning

/-- What comes before cannot fail. -/
theorem after {v : Value} {g : Value → Run σ EvalError Value}
    (h : Matches classes ctx target hint f (g v)) (ha : Steady a (.ok v)) :
    Matches classes ctx target hint f (a >>= g) := by
  constructor
  · intro hhint
    obtain ⟨run, hmeaning, hagree⟩ := h.native hhint
    exact ⟨run, hmeaning, hagree.bind_left ha⟩
  · intro hhint
    obtain ⟨run, hmeaning, hagree⟩ := h.value hhint
    exact ⟨run, hmeaning, hagree.bind_left ha⟩

/-- Boxed as its hint says, the fragment is a value. -/
theorem asValue (h : Matches classes ctx target hint f a) :
    Computes classes ctx target (f.asValue hint) a := by
  rw [Fragment.asValue_of_ne_blank h.ne_blank]
  split
  · rename_i hhint
    obtain ⟨run, hmeaning, hagree⟩ := h.native hhint
    refine ⟨_, ?_, hagree⟩
    rw [Fragment.meaning, hmeaning]
    rfl
  · rename_i hhint
    exact h.value hhint

/-- Negated by its truth, the fragment is a native truth value. -/
theorem not (h : Matches classes ctx target hint f a) :
    Decides classes ctx target (.not f) (a >>= fun v => pure (.boolean !v.truthy)) := by
  have hnegate (v : Value) (_ : v.Plain) :
      Settles Value.Plain (pure (.boolean !v.truthy) : Run σ EvalError Value) := .pure rfl
  by_cases hhint : hint = some .boolean
  · obtain ⟨run, hmeaning, hagree⟩ := h.native hhint
    refine ⟨run >>= fun b => pure !b, ?_, ?_⟩
    · rw [Fragment.meaning, hmeaning]
      rfl
    · have hboth := hagree.bind hnegate
      simp only [bind_assoc, pure_bind] at hboth ⊢
      exact hboth
  · obtain ⟨run, hmeaning, hagree⟩ := h.value hhint
    refine ⟨(run >>= fun v => pure v.truthy) >>= fun b => pure !b, ?_, ?_⟩
    · rw [Fragment.meaning, hmeaning]
      rfl
    · have hboth := hagree.bind hnegate
      simp only [bind_assoc, pure_bind]
      exact hboth

theorem ofLiteral (literal : Literal) :
    Matches classes ctx target (some literal.toValue.typeHint) (.ofLiteral literal)
      (pure literal.toValue) := by
  cases literal with
  | boolean b => exact Decides.matches ⟨pure b, rfl, .pure rfl⟩
  | null => exact Computes.matches ⟨_, rfl, .pure rfl⟩ nofun
  | integer n => exact Computes.matches ⟨_, rfl, .pure rfl⟩ nofun
  | float x => exact Computes.matches ⟨_, rfl, .pure rfl⟩ nofun
  | string t => exact Computes.matches ⟨_, rfl, .pure rfl⟩ nofun

end Matches

/-! ## Navigation from a place -/

section

variable {place : Fragment} {here : Value}

theorem Stands.property (hplace : Stands classes ctx target place here) {name : String}
    (hsettles : Settles Value.Plain (Navigation.getProperty classes ctx here name)) :
    Computes classes ctx target (.property place name)
      (Navigation.getProperty classes ctx here name) := by
  obtain ⟨run, hmeaning, hsteady⟩ := hplace
  refine ⟨run >>= fun here => Navigation.getProperty classes ctx here name, ?_,
    .bind_right hsteady hsettles⟩
  rw [Fragment.meaning, hmeaning]
  rfl

theorem Stands.subscript (hplace : Stands classes ctx target place here) {t : Subscript}
    (hsettles : Settles Value.Plain (Navigation.getSubscript ctx here t)) :
    Computes classes ctx target (.subscript place t) (Navigation.getSubscript ctx here t) := by
  obtain ⟨run, hmeaning, hsteady⟩ := hplace
  refine ⟨run >>= fun here => Navigation.getSubscript ctx here t, ?_,
    .bind_right hsteady hsettles⟩
  rw [Fragment.meaning, hmeaning]
  rfl

/-- The place is computed before the key, but it cannot fail. -/
theorem Stands.index (hplace : Stands classes ctx target place here) {key : Fragment}
    (hkey : Computes classes ctx target key a)
    (hsettles : ∀ k, Settles Value.Plain (Navigation.getIndex classes ctx here k)) :
    Computes classes ctx target (.index place key)
      (a >>= fun k => Navigation.getIndex classes ctx here k) := by
  obtain ⟨run, hmeaning, hsteady⟩ := hplace
  obtain ⟨keyRun, hkeyMeaning, hagree⟩ := hkey
  refine ⟨run >>= fun here => keyRun >>= fun k => Navigation.getIndex classes ctx here k, ?_,
    .bind_right hsteady (hagree.bind fun k _ => hsettles k)⟩
  rw [Fragment.meaning, hmeaning, hkeyMeaning]
  rfl

theorem Stands.call (hplace : Stands classes ctx target place here) {name : String}
    {args : List Fragment} {values values' : Run σ EvalError (List Value)}
    (hmeanings : Fragment.meanings classes ctx target args = some values')
    (hagree : Agree (fun _ => True) values values')
    (hsettles : ∀ vs, Settles Value.Plain (Navigation.callMethod classes ctx here name vs)) :
    Computes classes ctx target (.call place name args)
      (values >>= fun vs => Navigation.callMethod classes ctx here name vs) := by
  obtain ⟨run, hmeaning, hsteady⟩ := hplace
  refine ⟨run >>= fun here =>
      values' >>= fun vs => Navigation.callMethod classes ctx here name vs, ?_,
    .bind_right hsteady (hagree.bind fun vs _ => hsettles vs)⟩
  rw [Fragment.meaning, hmeaning, hmeanings]
  rfl

/-- A place made of a value's fragment, once the evaluation came to that value. -/
theorem Computes.group (h : Computes classes ctx target f a) {w w' : World σ} {v : Value}
    (hrun : a w = (.ok v, w')) :
    Stands classes ctx target (.group f) v ∧ Steady a (.ok v) ∧ v.Plain := by
  obtain ⟨run, hmeaning, o, hsteady, hsteady', hplain⟩ := h
  have ho : o = .ok v := by rw [← hsteady w, hrun]
  subst ho
  refine ⟨⟨run, ?_, hsteady'⟩, hsteady, hplain v rfl⟩
  rw [Fragment.meaning, hmeaning]
  rfl

end

/-! ## Operators -/

theorem Computes.compare {left right : Fragment} {b : Run σ EvalError Value}
    (hleft : Computes classes ctx target left a) (hright : Computes classes ctx target right b)
    (op : Comparison) :
    Decides classes ctx target (if op.apply true then .equal left right else .differ left right)
      (a >>= fun l => b >>= fun r => pure (.boolean (op.apply (l.equals r)))) := by
  obtain ⟨leftRun, hleftMeaning, hleft⟩ := hleft
  obtain ⟨rightRun, hrightMeaning, hright⟩ := hright
  have hagree : Agree Value.Plain
      (a >>= fun l => b >>= fun r => pure (.boolean (op.apply (l.equals r))))
      (leftRun >>= fun l => rightRun >>= fun r => pure (.boolean (op.apply (l.equals r)))) :=
    hleft.bind fun l _ => hright.bind fun r _ => .pure rfl
  cases op with
  | equal =>
    refine ⟨leftRun >>= fun l => rightRun >>= fun r => pure (l.equals r), ?_, ?_⟩
    · simp only [Comparison.apply, if_true, Fragment.meaning, hleftMeaning, hrightMeaning]
      rfl
    · simp only [bind_assoc, pure_bind]
      exact hagree
  | notEqual =>
    refine ⟨leftRun >>= fun l => rightRun >>= fun r => pure !l.equals r, ?_, ?_⟩
    · simp only [Comparison.apply, Bool.not_true, Bool.false_eq_true, if_false, Fragment.meaning,
        hleftMeaning, hrightMeaning]
      rfl
    · simp only [bind_assoc, pure_bind]
      exact hagree

/-- The nested blocks of a connective, built from the right, stop where the interpreter stops. -/
theorem computes_guards (op : Connective) {here : Value} {operands : List Expr}
    {fragments : List Fragment}
    (h : List.Forall₂ (fun e f => Computes classes ctx target f (e.evaluate classes ctx here))
      operands fragments) (hne : operands ≠ []) (last : Value) :
    Computes classes ctx target (.guards op fragments)
      (Expr.evaluateOperands classes ctx op operands last here) := by
  induction h generalizing last with
  | nil => exact absurd rfl hne
  | cons hfirst hrest ih =>
    cases hrest with
    | nil =>
      simp only [Expr.evaluateOperands, ite_self, bind_pure]
      exact hfirst
    | cons hnext htail =>
      obtain ⟨first, hmeaning, hagree⟩ := hfirst
      obtain ⟨rest, hrestMeaning, hrestAgree⟩ := ih (List.cons_ne_nil _ _) last
      refine ⟨first >>= fun v => if op.stopsAt v.truthy then pure v else rest, ?_, ?_⟩
      · rw [Fragment.guards, Fragment.meaning, hmeaning, hrestMeaning]
        rfl
      · refine hagree.bind fun v hv => ?_
        split
        · exact .pure hv
        · exact hrestAgree

theorem computes_logical (op : Connective) {here : Value} {operands : List Expr}
    {fragments : List Fragment}
    (h : List.Forall₂ (fun e f => Computes classes ctx target f (e.evaluate classes ctx here))
      operands fragments) :
    Computes classes ctx target (.guards op fragments)
      (Expr.evaluateOperands classes ctx op operands (.boolean op.identity) here) := by
  cases h with
  | nil => exact ⟨pure op.identity >>= fun b => pure (.boolean b), rfl, .pure rfl⟩
  | cons hfirst hrest => exact computes_guards op (.cons hfirst hrest) (List.cons_ne_nil _ _) _

/-! ## Simulation -/

/-- A session in the middle of generating for a context of plain data: the place computes the
value to render against. -/
structure Rendering (classes : Registry σ) (ctx : Context σ) (target : Value) (s : Session σ)
    (here : Value) : Prop where
  data : ctx.Plain
  booleanless : ctx.Booleanless
  context : s.context.reset = ctx.reset
  place : Stands classes ctx target s.context.place here
  plain : here.Plain

namespace Rendering

variable {s s' : Session σ} {here : Value}

theorem root_eq (h : Rendering classes ctx target s here) : s.context.root = ctx.root :=
  Context.root_of_reset h.context

theorem vars_eq (h : Rendering classes ctx target s here) : s.context.vars = ctx.vars :=
  Context.vars_of_reset h.context

theorem evaluate_eq (h : Rendering classes ctx target s here) (e : Expr) (v : Value) :
    e.evaluate classes s.context v = e.evaluate classes ctx v :=
  e.evaluate_of_reset h.context v

/-- What leaves the place and the bindings alone leads from one such session to another. -/
theorem after (h : Rendering classes ctx target s here) {α : Type} {g : Generation σ α}
    (hreset : Preserves Context.reset g) (hplace : Preserves Context.place g)
    {r : Except GenerationError α} (hg : g s = (r, s')) :
    Rendering classes ctx target s' here := by
  have hreset' := hreset s
  have hplace' := hplace s
  rw [hg] at hreset' hplace'
  refine ⟨h.data, h.booleanless, hreset'.trans h.context, ?_, h.plain⟩
  rw [hplace']
  exact h.place

/-- An operand that navigates from the root is rendered from a place that computes the root. -/
theorem fromRoot (h : Rendering classes ctx target s here) {e : Expr}
    (he : ∀ {u u' : Session σ} {fragment : Fragment}, Rendering classes ctx target u ctx.root →
      e.generate classes ctx.root u = (.ok fragment, u') →
        Matches classes ctx target u'.context.currentType fragment
          (e.evaluate classes ctx ctx.root))
    (hg : Generation.fromRoot (fun origin => e.generate classes origin) s = (.ok f, s')) :
    Computes classes ctx target f (e.evaluate classes ctx ctx.root) ∧
      Rendering classes ctx target s' here := by
  refine ⟨?_, h.after e.fromRoot_reset (Generation.fromRoot_place _) hg⟩
  obtain ⟨fragment, u, hgenerate, rfl, -⟩ := Generation.exists_of_fromRoot hg
  rw [h.root_eq] at hgenerate
  have hroot : Rendering classes ctx target
      { s with context := { s.context with place := .rootPlace } } ctx.root :=
    ⟨h.data, h.booleanless, h.context, ⟨pure ctx.root, rfl, .pure ctx.root⟩, h.data.root⟩
  exact (he hroot hgenerate).asValue

end Rendering

namespace Expr

open Generation

mutual
/-- The simulation, by recursion on the expression. A session in rendering is left by every
subexpression as it was found; the links of a chain alone move on to a new place. -/
theorem matches_generate : ∀ (e : Expr) {here : Value} {s s' : Session σ} {f : Fragment},
    e.isCompilable = true → Rendering classes ctx target s here →
      e.generate classes here s = (.ok f, s') →
        Matches classes ctx target s'.context.currentType f (e.evaluate classes ctx here)
  | const literal, here, s, s', f, _, hs, h => by
    cases h
    exact .ofLiteral literal
  | root, here, s, s', f, _, hs, h => by
    cases h
    refine Computes.matches ⟨pure ctx.root, rfl, .pure hs.data.root⟩ fun hhint => ?_
    have hroot : s.context.root.typeHint = .boolean := Option.some.inj hhint
    rw [hs.root_eq] at hroot
    exact hs.booleanless.root hroot
  | source, _, _, _, _, he, _, _ => by cases he
  | var name, here, s, s', f, _, hs, h => by
    cases h
    have hvalue := hs.data.valueOf name
    refine Computes.matches ⟨pure (ctx.valueOf name), rfl, .pure hvalue⟩ fun hhint => ?_
    have hvar : ((s.context.vars.find? name).map Value.typeHint).getD .dynamic = .boolean :=
      Option.some.inj hhint
    rw [hs.vars_eq] at hvar
    cases hfind : ctx.vars.find? name with
    | none =>
      rw [hfind] at hvar
      cases hvar
    | some v =>
      rw [hfind] at hvar
      exact hs.booleanless.vars hfind hvar
  | property name, here, s, s', f, _, hs, h => by
    obtain ⟨_, u, hcheck, hnavigate⟩ := Action.bind_eq_ok.1 h
    cases hnavigate
    have hkeeps : Preserves id (checkProperty classes (property name) here name) :=
      preserves_checkProperty _ here name
    have hu := hs.after hkeeps.of_id hkeeps.of_id hcheck
    exact (hu.place.property (settles_evaluate hs.data (property name) hs.plain)).matches nofun
  | index key, here, s, s', f, he, hs, h => by
    obtain ⟨fragment, u, hkey, hnavigate⟩ := Action.bind_eq_ok.1 h
    cases hnavigate
    obtain ⟨hcomputes, hu⟩ := hs.fromRoot (matches_generate key he) hkey
    exact (hu.place.index hcomputes fun k =>
      Navigation.settles_navigate hs.data _ (Navigation.settles_indexOf hs.plain k)).matches nofun
  | subscript t, here, s, s', f, _, hs, h => by
    cases h
    have hsettles := Navigation.settles_navigate hs.data (.property here (.subscript t))
      (settles_ofExcept (Navigation.yields_subscriptOf Value.handedDown_plain hs.plain t))
    exact (hs.place.subscript hsettles).matches nofun
  | method name args, here, s, s', f, he, hs, h => by
    obtain ⟨_, u, hcheck, hrest⟩ := Action.bind_eq_ok.1 h
    obtain ⟨fragments, v, hargs, hnavigate⟩ := Action.bind_eq_ok.1 hrest
    cases hnavigate
    have hkeeps : Preserves id (checkMethod classes (method name args) here name) :=
      preserves_checkMethod _ here name
    have hu := hs.after hkeeps.of_id hkeeps.of_id hcheck
    obtain ⟨⟨run, hmeanings, hagree⟩, hv⟩ := agree_generateArgs args he hu hargs
    exact (hv.place.call hmeanings hagree fun values =>
      Navigation.settles_navigate hs.data _
        (Navigation.settles_resultOf hs.plain name values)).matches nofun
  | chain [], _, _, _, _, he, _, _ => by cases he
  | chain (link :: links), here, s, s', f, he, hs, h => by
    obtain ⟨u, hlinks, rfl⟩ := keepingPlace_eq_ok.1 h
    have hmatches := matches_generateLinks _ (link :: links) nofun he hs hlinks
    exact hmatches
  | not operand, here, s, s', f, he, hs, h => by
    obtain ⟨fragment, u, hoperand, hreturn⟩ := Action.bind_eq_ok.1 h
    cases hreturn
    have hmatches := matches_generate operand he hs (Action.mapError_eq_ok.1 hoperand)
    -- A fragment that agrees with an evaluation is not blank, so nothing stands in for it.
    rw [Fragment.orNull_of_ne_blank hmatches.ne_blank]
    exact hmatches.not.matches
  | logical op operands, here, s, s', f, he, hs, h => by
    obtain ⟨fragments, u, hoperands, hreturn⟩ := Action.bind_eq_ok.1 h
    cases hreturn
    exact (computes_logical op (computes_generateOperands operands he hs hoperands)).matches nofun
  | compare op left right, here, s, s', f, he, hs, h => by
    obtain ⟨hleft, hright⟩ := Bool.and_eq_true_iff.1 he
    obtain ⟨_, u, hleftValue, h⟩ := Action.bind_eq_ok.1 h
    obtain ⟨_, v, hrightValue, hreturn⟩ := Action.bind_eq_ok.1 h
    cases hreturn
    obtain ⟨leftFragment, hleftGenerate, rfl⟩ := asValue_eq_ok.1 hleftValue
    obtain ⟨rightFragment, hrightGenerate, rfl⟩ := asValue_eq_ok.1 hrightValue
    have hu := hs.after (left.generate_reset here) (left.generate_place here) hleftGenerate
    have hleftMatches := matches_generate left hleft hs hleftGenerate
    have hrightMatches := matches_generate right hright hu hrightGenerate
    exact (hleftMatches.asValue.compare hrightMatches.asValue op).matches
termination_by structural e => e

theorem agree_generateArgs : ∀ (args : List Expr) {here : Value} {s s' : Session σ}
    {fs : List Fragment}, allCompilable args = true → Rendering classes ctx target s here →
      generateArgs classes args s = (.ok fs, s') →
        (∃ run, Fragment.meanings classes ctx target fs = some run ∧
          Agree (fun _ => True) (evaluateArgs classes ctx args) run) ∧
          Rendering classes ctx target s' here
  | [], here, s, s', fs, _, hs, h => by
    cases h
    exact ⟨⟨_, rfl, .pure trivial⟩, hs⟩
  | arg :: args, here, s, s', fs, he, hs, h => by
    obtain ⟨harg, hargs⟩ := Bool.and_eq_true_iff.1 he
    obtain ⟨fragment, u, hfirst, h⟩ := Action.bind_eq_ok.1 h
    obtain ⟨fragments, v, hrest, hreturn⟩ := Action.bind_eq_ok.1 h
    cases hreturn
    obtain ⟨⟨first, hmeaning, hagree⟩, hu⟩ := hs.fromRoot (matches_generate arg harg) hfirst
    obtain ⟨⟨rest, hmeanings, hagreeRest⟩, hv⟩ := agree_generateArgs args hargs hu hrest
    refine ⟨⟨first >>= fun value => rest >>= fun values => pure (value :: values), ?_, ?_⟩, hv⟩
    · rw [Fragment.meanings, hmeaning, hmeanings]
      rfl
    · exact hagree.bind fun value _ => hagreeRest.bind fun values _ => .pure trivial
termination_by structural args => args

theorem computes_generateOperands : ∀ (operands : List Expr) {here : Value} {s s' : Session σ}
    {fs : List Fragment}, allCompilable operands = true → Rendering classes ctx target s here →
      generateOperands classes operands here s = (.ok fs, s') →
        List.Forall₂ (fun e f => Computes classes ctx target f (e.evaluate classes ctx here))
          operands fs
  | [], here, s, s', fs, _, hs, h => by
    cases h
    exact .nil
  | operand :: operands, here, s, s', fs, he, hs, h => by
    obtain ⟨hfirst, hrest⟩ := Bool.and_eq_true_iff.1 he
    obtain ⟨_, u, hvalue, h⟩ := Action.bind_eq_ok.1 h
    obtain ⟨fragments, v, hoperands, hreturn⟩ := Action.bind_eq_ok.1 h
    cases hreturn
    obtain ⟨fragment, hgenerate, rfl⟩ := asValue_eq_ok.1 hvalue
    have hu := hs.after (operand.generate_reset here) (operand.generate_place here) hgenerate
    exact .cons (matches_generate operand hfirst hs hgenerate).asValue
      (computes_generateOperands operands hrest hu hoperands)
termination_by structural operands => operands

theorem matches_generateLinks (whole : Expr) : ∀ (links : List Expr) {here : Value}
    {s s' : Session σ} {f : Fragment}, links ≠ [] → allCompilable links = true →
      Rendering classes ctx target s here →
        generateLinks classes whole links here s = (.ok f, s') →
          Matches classes ctx target s'.context.currentType f
            (evaluateLinks classes ctx links here)
  | [], _, _, _, _, hne, _, _, _ => absurd rfl hne
  | [last], here, s, s', f, _, he, hs, h => by
    obtain ⟨hlast, -⟩ := Bool.and_eq_true_iff.1 he
    have hlinks : evaluateLinks classes ctx [last] here = last.evaluate classes ctx here := by
      simp only [evaluateLinks, bind_pure]
    rw [hlinks]
    exact matches_generate last hlast hs h
  | link :: next :: links, here, s, s', f, _, he, hs, h => by
    obtain ⟨hlink, hrest⟩ := Bool.and_eq_true_iff.1 he
    obtain ⟨_, u, hvalue, h⟩ := Action.bind_eq_ok.1 h
    obtain ⟨value, v, hstep, h⟩ := Action.bind_eq_ok.1 h
    obtain ⟨_, _, hset, hlinks⟩ := Action.bind_eq_ok.1 h
    cases hset
    obtain ⟨fragment, hgenerate, rfl⟩ := asValue_eq_ok.1 hvalue
    obtain ⟨world, hevaluate, rfl⟩ := stepping_eq_ok.1 hstep
    have hu := hs.after (link.generate_reset here) (link.generate_place here) hgenerate
    -- The generator evaluated the link in one world, but plain data is the same in all of them.
    rw [hu.evaluate_eq] at hevaluate
    have hcomputes := (matches_generate link hlink hs hgenerate).asValue
    obtain ⟨hplace, hsteady, hplain⟩ := hcomputes.group hevaluate
    have hv : Rendering classes ctx target
        ⟨{ u.context with place := .group (fragment.asValue u.context.currentType) }, world⟩
        value :=
      ⟨hu.data, hu.booleanless, hu.context, hplace, hplain⟩
    exact (matches_generateLinks whole (next :: links) nofun hrest hv hlinks).after hsteady
termination_by structural links => links
end

end Expr
end

end ObjectGraph
