import ObjectGraph.Proofs.GenerationFrame

/-!
# The shape of fragments

Which fragments an expression can have at a place, said without contexts, targets and errors. Only
the hints of the parts are left open, for they depend on the values that the context holds.
-/
namespace ObjectGraph
namespace Expr

mutual
/-- The fragments of an expression at a place. -/
inductive Renders : Expr → Fragment → Fragment → Prop
  | const (literal : Literal) (place : Fragment) :
      Renders (const literal) place (.ofLiteral literal)
  | root (place : Fragment) : Renders root place (.clone .rootPlace)
  | source (place : Fragment) : Renders source place (.clone place)
  | var (name : String) (place : Fragment) : Renders (var name) place (.var name)
  | property (name : String) (place : Fragment) :
      Renders (property name) place (.property place name)
  | index {key : Expr} {f : Fragment} (hkey : Renders key .rootPlace f)
      (hint : Option TypeHint) (place : Fragment) :
      Renders (index key) place (.index place (f.asValue hint))
  | subscript (s : Subscript) (place : Fragment) :
      Renders (subscript s) place (.subscript place s)
  | method {args : List Expr} {fs : List Fragment} (name : String)
      (hargs : RendersAll args .rootPlace fs) (place : Fragment) :
      Renders (method name args) place (.call place name fs)
  | empty (place : Fragment) : Renders (chain []) place .blank
  | chain {links : List Expr} {place f : Fragment} (hlinks : RendersLinks links place f) :
      Renders (chain links) place f
  | not {operand : Expr} {place f : Fragment} (hoperand : Renders operand place f) :
      Renders (not operand) place (.not f.orNull)
  | logical {operands : List Expr} {place : Fragment} {fs : List Fragment} (op : Connective)
      (hoperands : RendersAll operands place fs) :
      Renders (logical op operands) place (.guards op fs)
  | compare {left right : Expr} {place l r : Fragment} (op : Comparison)
      (hleft : Renders left place l) (leftHint : Option TypeHint)
      (hright : Renders right place r) (rightHint : Option TypeHint) :
      Renders (compare op left right) place
        (if op.apply true then .equal (l.asValue leftHint) (r.asValue rightHint)
          else .differ (l.asValue leftHint) (r.asValue rightHint))

/-- The values of several expressions at one place. -/
inductive RendersAll : List Expr → Fragment → List Fragment → Prop
  | nil (place : Fragment) : RendersAll [] place []
  | cons {e : Expr} {es : List Expr} {place f : Fragment} {fs : List Fragment}
      (h : Renders e place f) (hint : Option TypeHint) (hs : RendersAll es place fs) :
      RendersAll (e :: es) place (f.asValue hint :: fs)

/-- The value of each link is the place of the next. -/
inductive RendersLinks : List Expr → Fragment → Fragment → Prop
  | last {e : Expr} {place f : Fragment} (h : Renders e place f) : RendersLinks [e] place f
  | link {e next : Expr} {links : List Expr} {place f g : Fragment} (h : Renders e place f)
      (hint : Option TypeHint)
      (hlinks : RendersLinks (next :: links) (.group (f.asValue hint)) g) :
      RendersLinks (e :: next :: links) place g
end

section

variable {σ : Type}

/-- What a successful action did to a part of the context that it preserves. -/
theorem view_of_preserves {α γ : Type} (view : Context σ → γ) {g : Generation σ α}
    (h : Preserves view g) {s s' : Session σ} {r : Except GenerationError α} (hg : g s = (r, s')) :
    view s'.context = view s.context := by
  have hs := h s
  rw [hg] at hs
  exact hs

open Generation

variable {classes : Registry σ}

/-- An operand that is rendered from the root has the root as its place. -/
theorem exists_renders_of_fromRoot {e : Expr}
    (he : ∀ {origin : Value} {u u' : Session σ} {f : Fragment},
      e.generate classes origin u = (.ok f, u') → Renders e u.context.place f)
    {s s' : Session σ} {f : Fragment}
    (h : fromRoot (fun origin => e.generate classes origin) s = (.ok f, s')) :
    ∃ fragment hint, Renders e .rootPlace fragment ∧ f = fragment.asValue hint := by
  obtain ⟨fragment, u, hgenerate, rfl, -⟩ := exists_of_fromRoot h
  exact ⟨fragment, _, he hgenerate, rfl⟩

mutual
theorem renders_generate : ∀ (e : Expr) (target : Value) {s s' : Session σ} {f : Fragment},
    e.generate classes target s = (.ok f, s') → Renders e s.context.place f
  | const literal, _, s, s', f, h => by
    cases h
    exact .const literal _
  | root, _, s, s', f, h => by
    cases h
    exact .root _
  | source, _, s, s', f, h => by
    cases h
    exact .source _
  | var name, _, s, s', f, h => by
    cases h
    exact .var name _
  | property name, target, s, s', f, h => by
    obtain ⟨_, u, hcheck, h⟩ := Action.bind_eq_ok.1 h
    cases h
    have hu := view_of_preserves Context.place (preserves_checkProperty _ target name).of_id hcheck
    rw [← hu]
    exact .property name _
  | index key, _, s, s', f, h => by
    obtain ⟨fragment, u, hkey, h⟩ := Action.bind_eq_ok.1 h
    cases h
    have hu := view_of_preserves Context.place (fromRoot_place _) hkey
    obtain ⟨_, hint, hrenders, rfl⟩ := exists_renders_of_fromRoot (renders_generate key _) hkey
    rw [← hu]
    exact .index hrenders hint _
  | subscript t, _, s, s', f, h => by
    cases h
    exact .subscript t _
  | method name args, target, s, s', f, h => by
    obtain ⟨_, u, hcheck, h⟩ := Action.bind_eq_ok.1 h
    obtain ⟨fragments, v, hfragments, h⟩ := Action.bind_eq_ok.1 h
    cases h
    have hu := view_of_preserves Context.place (preserves_checkMethod _ target name).of_id hcheck
    have hv := view_of_preserves Context.place (generateArgs_place args) hfragments
    rw [← hu, ← hv]
    exact .method name (renders_generateArgs args hfragments) _
  | chain [], _, s, s', f, h => by
    cases h
    exact .empty _
  | chain (link :: links), target, s, s', f, h => by
    obtain ⟨u, hlinks, rfl⟩ := keepingPlace_eq_ok.1 h
    exact .chain (renders_generateLinks _ (link :: links) target (List.cons_ne_nil _ _) hlinks)
  | not operand, target, s, s', f, h => by
    obtain ⟨fragment, u, hoperand, h⟩ := Action.bind_eq_ok.1 h
    cases h
    exact .not (renders_generate operand target (Action.mapError_eq_ok.1 hoperand))
  | logical op operands, target, s, s', f, h => by
    obtain ⟨fragments, u, hoperands, h⟩ := Action.bind_eq_ok.1 h
    cases h
    exact .logical op (renders_generateOperands operands target hoperands)
  | compare op left right, target, s, s', f, h => by
    obtain ⟨_, u, hleftValue, h⟩ := Action.bind_eq_ok.1 h
    obtain ⟨_, v, hrightValue, hreturn⟩ := Action.bind_eq_ok.1 h
    cases hreturn
    obtain ⟨l, hleft, rfl⟩ := asValue_eq_ok.1 hleftValue
    obtain ⟨r, hright, rfl⟩ := asValue_eq_ok.1 hrightValue
    have hplace := view_of_preserves Context.place (left.generate_place target) hleft
    have hrenders := renders_generate right target hright
    rw [hplace] at hrenders
    exact .compare op (renders_generate left target hleft) _ hrenders _
termination_by structural e => e

theorem renders_generateArgs : ∀ (args : List Expr) {s s' : Session σ} {fs : List Fragment},
    generateArgs classes args s = (.ok fs, s') → RendersAll args .rootPlace fs
  | [], s, s', fs, h => by
    cases h
    exact .nil _
  | arg :: args, s, s', fs, h => by
    obtain ⟨fragment, u, hfirst, h⟩ := Action.bind_eq_ok.1 h
    obtain ⟨rest, v, hrest, hreturn⟩ := Action.bind_eq_ok.1 h
    cases hreturn
    obtain ⟨_, hint, hrenders, rfl⟩ := exists_renders_of_fromRoot (renders_generate arg _) hfirst
    exact .cons hrenders hint (renders_generateArgs args hrest)
termination_by structural args => args

theorem renders_generateOperands : ∀ (operands : List Expr) (target : Value) {s s' : Session σ}
    {fs : List Fragment}, generateOperands classes operands target s = (.ok fs, s') →
      RendersAll operands s.context.place fs
  | [], _, s, s', fs, h => by
    cases h
    exact .nil _
  | operand :: operands, target, s, s', fs, h => by
    obtain ⟨_, u, hfirst, h⟩ := Action.bind_eq_ok.1 h
    obtain ⟨rest, v, hrest, hreturn⟩ := Action.bind_eq_ok.1 h
    cases hreturn
    obtain ⟨fragment, hgenerate, rfl⟩ := asValue_eq_ok.1 hfirst
    have hplace := view_of_preserves Context.place (operand.generate_place target) hgenerate
    have hrenders := renders_generateOperands operands target hrest
    rw [hplace] at hrenders
    exact .cons (renders_generate operand target hgenerate) _ hrenders
termination_by structural operands => operands

theorem renders_generateLinks (whole : Expr) : ∀ (links : List Expr) (target : Value)
    {s s' : Session σ} {f : Fragment}, links ≠ [] →
      generateLinks classes whole links target s = (.ok f, s') →
        RendersLinks links s.context.place f
  | [], _, _, _, _, hne, _ => absurd rfl hne
  | [last], target, s, s', f, _, h => .last (renders_generate last target h)
  | link :: next :: links, target, s, s', f, _, h => by
    obtain ⟨_, u, hvalue, h⟩ := Action.bind_eq_ok.1 h
    obtain ⟨value, v, hstep, h⟩ := Action.bind_eq_ok.1 h
    obtain ⟨_, _, hset, h⟩ := Action.bind_eq_ok.1 h
    cases hset
    obtain ⟨fragment, hgenerate, rfl⟩ := asValue_eq_ok.1 hvalue
    exact .link (renders_generate link target hgenerate) _
      (renders_generateLinks whole (next :: links) value (List.cons_ne_nil _ _) h)
termination_by structural links => links
end

/-- Generation from the root has the target as its place. -/
theorem renders_generateFromRoot {e : Expr} {s s' : Session σ} {f : Fragment}
    (h : e.generateFromRoot classes s = (.ok f, s')) : Renders e .targetPlace f :=
  renders_generate (s := ⟨s.context.reset, s.world⟩) e s.context.root h

end

end Expr
end ObjectGraph
