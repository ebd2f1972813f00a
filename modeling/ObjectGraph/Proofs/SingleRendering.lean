import Mathlib.Algebra.Order.BigOperators.Group.List
import ObjectGraph.Proofs.DirectCode
import ObjectGraph.Proofs.FragmentSize

/-!
# Navigation that is rendered once

A fragment calls the functions for variables and navigation as often as the nodes that do so are
rendered. That is once each just when every link of a chain that navigates is read once by the
links after it. Chains that read their prefix again and again grow exponentially.
-/
namespace ObjectGraph

variable {σ : Type} {classes : Registry σ}

/-! ## Sums of counts -/

theorem sum_le_length {ns : List Nat} (h : ∀ n ∈ ns, n ≤ 1) : ns.sum ≤ ns.length := by
  have hle := List.sum_le_card_nsmul ns 1 h
  simpa using hle

theorem sum_eq_length {ns : List Nat} (h : ∀ n ∈ ns, n = 1) : ns.sum = ns.length := by
  have heq := List.sum_eq_card_nsmul ns 1 h
  simpa using heq

/-- Where no count is zero, or where none is more than one, the counts do not make up for each
other. -/
theorem eq_one_of_sum_eq_length {ns : List Nat}
    (h : (∀ n ∈ ns, 1 ≤ n) ∨ ∀ n ∈ ns, n ≤ 1) (hsum : ns.sum = ns.length) :
    ∀ n ∈ ns, n = 1 := by
  induction ns with
  | nil => simp
  | cons n rest ih =>
    rw [List.length_cons, List.sum_cons] at hsum
    rcases h with h | h
    · obtain ⟨hn, hns⟩ := List.forall_mem_cons.1 h
      have hle := List.length_le_sum_of_one_le rest hns
      exact List.forall_mem_cons.2 ⟨by omega, ih (.inl hns) (by omega)⟩
    · obtain ⟨hn, hns⟩ := List.forall_mem_cons.1 h
      have hle := sum_le_length hns
      exact List.forall_mem_cons.2 ⟨by omega, ih (.inr hns) (by omega)⟩

/-! ## Growth -/

namespace Expr

/-- A property that is compared with itself, and the outcome again, and so on. -/
def doubling (n : Nat) : Expr :=
  chain (property "p" :: List.replicate n (compare .equal source source))

theorem readsLinks_replicate (n : Nat) :
    readsLinks (List.replicate (n + 1) (compare .equal source source)) = 2 ^ (n + 1) := by
  induction n with
  | zero => rfl
  | succ n ih =>
    rw [List.replicate_succ] at ih ⊢
    rw [List.replicate_succ, readsLinks, ih, Nat.pow_succ, Nat.mul_comm]
    rfl

theorem renderingsLinks_replicate (n : Nat) :
    renderingsLinks (List.replicate n (compare .equal source source)) = [] := by
  induction n with
  | zero => rfl
  | succ n ih =>
    cases n with
    | zero => rfl
    | succ n =>
      rw [List.replicate_succ] at ih ⊢
      rw [List.replicate_succ, renderingsLinks, ih]
      rfl

theorem renderings_doubling (n : Nat) : (doubling n).renderings = [2 ^ n] := by
  cases n with
  | zero => rfl
  | succ n =>
    have hreads := readsLinks_replicate n
    have hnone := renderingsLinks_replicate (n + 1)
    rw [List.replicate_succ] at hreads hnone
    rw [doubling, renderings, List.replicate_succ, renderingsLinks, hreads, hnone, renderings]
    simp

theorem exists_generateLinks_replicate (classes : Registry σ) (whole : Expr) (n : Nat)
    (target : Value) (s : Session σ) :
    ∃ f s', generateLinks classes whole
      (List.replicate (n + 1) (compare .equal source source)) target s = (.ok f, s') := by
  induction n generalizing target s with
  | zero => exact ⟨_, _, rfl⟩
  | succ n ih =>
    -- Neither rendering nor evaluating the first link can fail, so the others are rendered next.
    obtain ⟨fragment, u, hrender⟩ : ∃ fragment u, Generation.asValue
        (generate classes (compare .equal source source) target) s = (.ok fragment, u) :=
      ⟨_, _, rfl⟩
    obtain ⟨value, v, hstep⟩ : ∃ value v, Generation.stepping classes whole
        (compare .equal source source) target u = (.ok value, v) :=
      ⟨_, _, rfl⟩
    obtain ⟨f, s', h⟩ := ih value { v with context := { v.context with place := .group fragment } }
    exact ⟨f, s', Action.bind_eq_ok.2 ⟨fragment, u, hrender,
      Action.bind_eq_ok.2 ⟨value, v, hstep, h⟩⟩⟩

theorem spellsPath_doubling (n : Nat) : (doubling n).spellsPath = false := by
  have hlinks : anySpellsPath (List.replicate n (compare .equal source source)) = false := by
    induction n with
    | zero => rfl
    | succ n ih => exact ih
  have hp : (property "p").spellsPath = false := by decide
  exact Bool.or_eq_false_iff.2 ⟨hp, hlinks⟩

/-- An entry of a map can always be read. -/
theorem exists_getProperty_of_map (classes : Registry σ) (ctx : Context σ) (entries : Dict Value)
    (name : String) (w : World σ) :
    ∃ v w', Navigation.getProperty classes ctx (.map entries) name w = (.ok v, w') := by
  have hfill (step : Step) (w : World σ) :
      ∃ v w', (ctx.nulls.fill ctx.toBindings step : Run σ EvalError Value) w = (.ok v, w') := by
    unfold NullHandlers.fill
    split
    · exact ⟨_, _, rfl⟩
    · exact ⟨_, _, rfl⟩
  have hsettle (step : Step) (value : Value) (w : World σ) :
      ∃ v w', (if value.isNull then ctx.nulls.fill ctx.toBindings step
        else pure value : Run σ EvalError Value) w = (.ok v, w') := by
    split
    · exact hfill step w
    · exact ⟨value, w, rfl⟩
  obtain ⟨v, w', hv⟩ := hsettle _ (Builtin.entryAt entries name) _
  exact ⟨v, w', Action.bind_eq_ok.2 ⟨_, _, rfl, hv⟩⟩

theorem exists_generateFromRoot_doubling (classes : Registry σ) {s : Session σ}
    {entries : Dict Value} (hroot : s.context.root = .map entries) (n : Nat) :
    ∃ f s', (doubling n).generateFromRoot classes s = (.ok f, s') := by
  let ctx := s.context.reset
  have hgenerate : ∃ f s', generateLinks classes (doubling n)
      (property "p" :: List.replicate n (compare .equal source source))
      (.map entries) ⟨ctx, s.world⟩ = (.ok f, s') := by
    cases n with
    | zero => exact ⟨_, _, rfl⟩
    | succ n =>
      obtain ⟨fragment, u, hrender⟩ : ∃ fragment u, Generation.asValue
          (generate classes (property "p") (.map entries)) ⟨ctx, s.world⟩ = (.ok fragment, u) :=
        ⟨_, _, rfl⟩
      obtain ⟨value, w, hvalue⟩ :=
        exists_getProperty_of_map classes u.context entries "p" u.world
      have hstep : Generation.stepping classes (doubling (n + 1)) (property "p") (.map entries) u =
          (.ok value, ⟨u.context, w⟩) := by
        rw [Generation.stepping, Action.mapError_eq_ok, Session.reading, evaluate, hvalue]
      obtain ⟨f, s', h⟩ := exists_generateLinks_replicate classes (doubling (n + 1)) n value
        ⟨{ u.context with place := .group fragment }, w⟩
      exact ⟨f, s', Action.bind_eq_ok.2 ⟨fragment, u, hrender,
        Action.bind_eq_ok.2 ⟨value, _, hstep, h⟩⟩⟩
  obtain ⟨f, s', h⟩ := hgenerate
  rw [← hroot] at h
  exact ⟨f, _, Generation.keepingPlace_eq_ok.2 ⟨s', h, rfl⟩⟩

theorem extent_doubling (n : Nat) : (doubling n).extent = 600 * n + 403 := by
  have hlinks : extentAll (List.replicate n (compare .equal source source)) = 600 * n := by
    induction n with
    | zero => rfl
    | succ n ih =>
      rw [List.replicate_succ, extentAll, ih]
      change 600 + 600 * n = _
      omega
  have hp : (property "p").extent = 203 := by decide
  rw [doubling, extent, extentAll, hlinks, hp]
  omega

/-- With every comparison the one node that navigates is rendered twice as often. -/
theorem exponential_renderings (classes : Registry σ) {s : Session σ} {entries : Dict Value}
    (hroot : s.context.root = .map entries) (n : Nat) :
    (doubling n).navigations = 1 ∧ (doubling n).extent = 600 * n + 403 ∧ ∃ f s',
      (doubling n).generateFromRoot classes s = (.ok f, s') ∧
        Text.count f.render Fragment.helperPath = 2 ^ n := by
  have hnavigations : (doubling n).navigations = 1 := by
    rw [← length_renderings, renderings_doubling]
    rfl
  refine ⟨hnavigations, extent_doubling n, ?_⟩
  obtain ⟨f, s', h⟩ := exists_generateFromRoot_doubling classes hroot n
  refine ⟨f, s', h, ?_⟩
  have hcount := pathCount_of_renders (spellsPath_doubling n) (renders_generateFromRoot h)
  rw [renderings_doubling, List.sum_singleton] at hcount
  exact hcount

end Expr

/-- The text of a fragment has the path of the navigation functions as often as the nodes that read
a variable or navigate are rendered, and every one of them is rendered once just in linear
expressions: there the path occurs once for each node. It also does in no other expression in which
none is left out or none is repeated. In direct expressions, moreover, the code does what evaluation
does, to host objects too, and in thrifty ones the text grows in proportion to the expression. -/
theorem navigation_rendered_once_iff_linear {e : Expr} {s s' : Session σ} {f : Fragment}
    (he : e.spellsPath = false) (h : e.generateFromRoot classes s = (.ok f, s')) :
    let count := Text.count f.render Fragment.helperPath
    (count = e.renderings.sum ∧ e.renderings.length = e.navigations) ∧
    ((∀ n ∈ e.renderings, n = 1) ↔ e.isLinear = true) ∧
    (e.isLinear = true → count = e.navigations) ∧
    ((∀ n ∈ e.renderings, 1 ≤ n) ∨ (∀ n ∈ e.renderings, n ≤ 1) →
      count = e.navigations → e.isLinear = true) ∧
    (e.isDirect = true → e.isLinear = true ∧ ∀ run : Run σ EvalError Value,
      (f.asValue s'.context.currentType).meaning classes s.context s.context.root =
          some (.value run) →
        run = e.value classes s.context) ∧
    (e.isThrifty = true → f.render.utf8ByteSize ≤ e.extent) := by
  intro count
  have hrenders := Expr.renders_generateFromRoot h
  have hcount : count = e.renderings.sum := Expr.pathCount_of_renders he hrenders
  have hlength := e.length_renderings
  have hlinear := e.renderings_eq_one_iff
  refine ⟨⟨hcount, hlength⟩, hlinear, fun hone => ?_, fun hsides hequal => ?_, fun hdirect => ?_,
    fun hthrifty => Expr.size_le_extent hthrifty hrenders⟩
  · rw [hcount, sum_eq_length (hlinear.2 hone), hlength]
  · rw [hcount, ← hlength] at hequal
    exact hlinear.1 (eq_one_of_sum_eq_length hsides hequal)
  · refine ⟨(e.linear_of_fits .free hdirect).2, fun run hrun => ?_⟩
    have hperforms : Performs classes s.context s.context.root f (e.value classes s.context) :=
      Expr.performs_of_isDirect hdirect hrenders
    exact (hperforms.asValue _).run _ hrun

/-- A method is called once before its result is compared. -/
theorem navigation_rendered_once_of_compared_method :
    let counter : ClassTable Int64 :=
      ClassTable.build [.method "next" .isPublic 0 fun _ _ n => (.ok (.integer (n + 1)), n + 1)]
    let s : Session Int64 := ⟨Context.new (.object ⟨⟨0, "Counter"⟩, "c"⟩), World.start 0⟩
    let e := Expr.chain [.method "next" [], .compare .equal .source (.const (.integer 1))]
    let f := Fragment.equal (.clone (.group (.call .targetPlace "next" []))) (.integer 1)
    e.navigations = 1 ∧ Text.count f.render Fragment.helperPath = 1 ∧
      f.render.utf8ByteSize ≤ e.extent ∧
      ∃ run, f.boxed.meaning (fun _ => counter) s.context s.context.root = some (.value run) ∧
        run = e.value (fun _ => counter) s.context := by
  intro counter s e f
  have he : e.spellsPath = false := by decide
  have hgenerate : e.generateFromRoot (fun _ => counter) s =
      (.ok f, (e.generateFromRoot (fun _ => counter) s).2) := rfl
  obtain ⟨-, -, hlinear, -, hdirect, hthrifty⟩ := navigation_rendered_once_iff_linear he hgenerate
  obtain ⟨hone, hruns⟩ := hdirect rfl
  exact ⟨rfl, hlinear hone, hthrifty rfl, _, rfl, hruns _ rfl⟩

/-- A method whose result is compared with itself is called once by evaluation, but it stands twice
in the code, and there it counts twice. -/
theorem compared_source_rendered_twice :
    let counter : ClassTable Int64 :=
      ClassTable.build [.method "next" .isPublic 0 fun _ _ n => (.ok (.integer (n + 1)), n + 1)]
    let s : Session Int64 := ⟨Context.new (.object ⟨⟨0, "Counter"⟩, "c"⟩), World.start 0⟩
    let e := Expr.chain [.method "next" [], .compare .equal .source .source]
    ∃ f s', e.generateFromRoot (fun _ => counter) s = (.ok f, s') ∧ e.spellsPath = false ∧
      e.navigations = 1 ∧ Text.count f.render Fragment.helperPath = 2 ∧
      (∃ w, e.value (fun _ => counter) s.context s.world = (.ok (.boolean true), w) ∧
        w.host = 1) ∧
      ∃ run w, f.boxed.meaning (fun _ => counter) s.context s.context.root = some (.value run) ∧
        run s.world = (.ok (.boolean false), w) ∧ w.host = 2 := by
  intro counter s e
  have he : e.spellsPath = false := by decide
  obtain ⟨f, s', hgenerate⟩ : ∃ f s', e.generateFromRoot (fun _ => counter) s = (.ok f, s') :=
    ⟨_, _, rfl⟩
  have hcount := Expr.pathCount_of_renders he (Expr.renders_generateFromRoot hgenerate)
  cases hgenerate
  exact ⟨_, _, rfl, he, rfl, hcount, ⟨_, rfl, rfl⟩, _, _, rfl, rfl, rfl⟩

end ObjectGraph
