import ObjectGraph.Proofs.FragmentMeaning
import ObjectGraph.Proofs.GenerationFrame

/-!
# Boolean hints and native truth values

A boolean hint ought to say that the fragment is a native truth value. It does unless the
expression ends, through the last links of chains, in the root, the source or a variable that is
a truth value there: then the hint is boolean, but the fragment is a value.
-/
namespace ObjectGraph

variable {σ : Type} {classes : Registry σ}

/-- Rendering the expression against the target ends in a read of a truth value from the root,
the target or a variable. -/
inductive Expr.ReadsTruth (classes : Registry σ) : Expr → Value → Session σ → Prop
  | root {target : Value} {s : Session σ} {b : Bool} (h : s.context.root = .boolean b) :
    ReadsTruth classes .root target s
  | source {s : Session σ} (b : Bool) : ReadsTruth classes .source (.boolean b) s
  | var {name : String} {target : Value} {s : Session σ} {b : Bool}
    (h : s.context.vars.find? name = some (.boolean b)) : ReadsTruth classes (.var name) target s
  | last {link : Expr} {target : Value} {s : Session σ} (h : ReadsTruth classes link target s) :
    ReadsTruth classes (.chain [link]) target s
  | link {link next : Expr} {links : List Expr} {target value : Value} {fragment : Fragment}
    {s s' : Session σ} {world : World σ}
    (hrender : Generation.asValue (link.generate classes target) s = (.ok fragment, s'))
    (hstep : link.evaluate classes s'.context target s'.world = (.ok value, world))
    (h : ReadsTruth classes (.chain (next :: links)) value
      ⟨{ s'.context with place := .group fragment }, world⟩) :
    ReadsTruth classes (.chain (link :: next :: links)) target s

theorem Value.typeHint_eq_boolean {v : Value} : v.typeHint = .boolean ↔ ∃ b, v = .boolean b := by
  cases v <;> simp [Value.typeHint]

/-- What a fragment and its hint say of each other, given whether a truth value was read. -/
structure Told (f : Fragment) (hint : Option TypeHint) (reads : Prop) : Prop where
  hint : hint = some .boolean ↔ f.isNative = true ∨ reads
  native : f.isNative = true → ¬ reads
  nonblank : reads → f ≠ .blank
  clones : f.clonesPlace = true

namespace Told

variable {f : Fragment} {hint : Option TypeHint} {reads : Prop}

/-- A value that was not read from anywhere. -/
theorem ofValue (hf : f.isNative = false) (hclones : f.clonesPlace = true)
    (hhint : hint ≠ some .boolean) (hreads : ¬ reads) : Told f hint reads where
  hint := by simp [hf, hhint, hreads]
  native h := by simp [hf] at h
  nonblank h := absurd h hreads
  clones := hclones

/-- A value that was read, with its own hint. -/
theorem ofRead {v : Value} (hf : f.isNative = false) (hclones : f.clonesPlace = true)
    (hblank : f ≠ .blank) (hreads : reads ↔ ∃ b, v = .boolean b) :
    Told f (some v.typeHint) reads where
  hint := by simp [hf, hreads, Value.typeHint_eq_boolean]
  native h := by simp [hf] at h
  nonblank _ := hblank
  clones := hclones

theorem ofNative (hf : f.isNative = true) (hclones : f.clonesPlace = true) (hreads : ¬ reads) :
    Told f (some .boolean) reads where
  hint := by simp [hf]
  native _ := hreads
  nonblank h := absurd h hreads
  clones := hclones

/-- As a value it is not native any more. -/
theorem asValue (h : Told f hint reads) :
    (f.asValue hint).isNative = false ∧ (f.asValue hint).clonesPlace = true := by
  by_cases hblank : f = .blank
  · subst hblank
    exact ⟨rfl, rfl⟩
  · rw [Fragment.asValue_of_ne_blank hblank]
    split
    · exact ⟨rfl, rfl⟩
    · rename_i hhint
      refine ⟨?_, h.clones⟩
      cases hf : f.isNative with
      | false => rfl
      | true => exact absurd (h.hint.2 (.inl hf)) hhint

end Told

namespace Expr

/-- The links of a chain read a truth value when those that are left do. -/
theorem readsTruth_link_iff {link next : Expr} {links : List Expr} {target value : Value}
    {fragment : Fragment} {s s' : Session σ} {world : World σ}
    (hrender : Generation.asValue (link.generate classes target) s = (.ok fragment, s'))
    (hstep : link.evaluate classes s'.context target s'.world = (.ok value, world)) :
    ReadsTruth classes (chain (link :: next :: links)) target s ↔
      ReadsTruth classes (chain (next :: links)) value
        ⟨{ s'.context with place := .group fragment }, world⟩ := by
  constructor
  · rintro (_ | _ | _ | _ | ⟨hrender', hstep', h⟩)
    rw [hrender] at hrender'
    cases hrender'
    rw [hstep] at hstep'
    cases hstep'
    exact h
  · exact .link hrender hstep

@[simp] theorem readsTruth_last_iff {link : Expr} {target : Value} {s : Session σ} :
    ReadsTruth classes (chain [link]) target s ↔ ReadsTruth classes link target s := by
  constructor
  · rintro (_ | _ | _ | h)
    exact h
  · exact .last

open Generation

theorem guards_of_values (op : Connective) {fs : List Fragment}
    (h : ∀ f ∈ fs, f.isNative = false ∧ f.clonesPlace = true) :
    (Fragment.guards op fs).isNative = false ∧ (Fragment.guards op fs).clonesPlace = true := by
  match fs with
  | [] => exact ⟨rfl, rfl⟩
  | [last] => exact h last (List.mem_singleton.2 rfl)
  | _ :: _ :: _ => exact ⟨rfl, rfl⟩

mutual
/-- What fragment and hint of a successful generation say of each other. Only the last link of a
chain decides it, so the other links matter for the value that the last is rendered against. -/
theorem told_generate : ∀ (e : Expr) (target : Value) {s s' : Session σ} {f : Fragment},
    s.context.place.isPlace = true → e.generate classes target s = (.ok f, s') →
      Told f s'.context.currentType (ReadsTruth classes e target s)
  | const literal, target, s, s', f, _, h => by
    cases h
    cases literal with
    | boolean b => exact .ofNative rfl rfl nofun
    | _ => exact .ofValue rfl rfl nofun nofun
  | root, target, s, s', f, _, h => by
    cases h
    refine .ofRead rfl rfl nofun ⟨?_, ?_⟩
    · rintro (h | _)
      exact ⟨_, h⟩
    · rintro ⟨b, h⟩
      exact .root h
  | source, target, s, s', f, hplace, h => by
    cases h
    refine .ofRead rfl hplace nofun ⟨?_, ?_⟩
    · rintro (_ | b)
      exact ⟨b, rfl⟩
    · rintro ⟨b, rfl⟩
      exact .source b
  | var name, target, s, s', f, _, h => by
    cases h
    cases hfind : s.context.vars.find? name with
    | none =>
      refine .ofValue rfl rfl ?_ ?_
      · simp [Context.setCurrentType]
      · rintro (_ | _ | h)
        rw [hfind] at h
        cases h
    | some v =>
      simp only [Context.setCurrentType, Option.map_some, Option.getD_some]
      refine .ofRead rfl rfl nofun ⟨?_, ?_⟩
      · rintro (_ | _ | h)
        rw [hfind] at h
        exact ⟨_, Option.some.inj h⟩
      · rintro ⟨b, rfl⟩
        exact .var hfind
  | property name, target, s, s', f, _, h => by
    obtain ⟨_, u, _, h⟩ := Action.bind_eq_ok.1 h
    cases h
    exact .ofValue rfl rfl nofun nofun
  | index key, target, s, s', f, _, h => by
    obtain ⟨_, u, _, h⟩ := Action.bind_eq_ok.1 h
    cases h
    exact .ofValue rfl rfl nofun nofun
  | subscript _, target, s, s', f, _, h => by
    cases h
    exact .ofValue rfl rfl nofun nofun
  | method name args, target, s, s', f, _, h => by
    obtain ⟨_, u, _, h⟩ := Action.bind_eq_ok.1 h
    obtain ⟨_, u, _, h⟩ := Action.bind_eq_ok.1 h
    cases h
    exact .ofValue rfl rfl nofun nofun
  | chain [], target, s, s', f, _, h => by
    cases h
    exact .ofValue rfl rfl nofun nofun
  | chain (link :: links), target, s, s', f, hplace, h => by
    obtain ⟨u, hlinks, rfl⟩ := keepingPlace_eq_ok.1 h
    have htold := told_generateLinks _ (link :: links) target nofun hplace hlinks
    exact htold
  | not operand, target, s, s', f, _, h => by
    obtain ⟨_, u, _, h⟩ := Action.bind_eq_ok.1 h
    cases h
    exact .ofNative rfl rfl nofun
  | logical op operands, target, s, s', f, hplace, h => by
    obtain ⟨fs, u, hfs, h⟩ := Action.bind_eq_ok.1 h
    cases h
    have hvalues := value_generateOperands operands target hplace hfs
    obtain ⟨hvalue, hclones⟩ := guards_of_values op hvalues
    exact .ofValue hvalue hclones nofun nofun
  | compare op left right, target, s, s', f, _, h => by
    obtain ⟨_, u, _, h⟩ := Action.bind_eq_ok.1 h
    obtain ⟨_, u, _, h⟩ := Action.bind_eq_ok.1 h
    cases h
    cases op with
    | equal => exact .ofNative rfl rfl nofun
    | notEqual => exact .ofNative rfl rfl nofun
termination_by structural e => e

theorem told_generateLinks (whole : Expr) :
    ∀ (links : List Expr) (target : Value) {s s' : Session σ} {f : Fragment}, links ≠ [] →
      s.context.place.isPlace = true → generateLinks classes whole links target s = (.ok f, s') →
        Told f s'.context.currentType (ReadsTruth classes (chain links) target s)
  | [], _, _, _, _, hlinks, _, _ => absurd rfl hlinks
  | [last], target, s, s', f, _, hplace, h => by
    rw [readsTruth_last_iff]
    exact told_generate last target hplace h
  | link :: next :: links, target, s, s', f, _, hplace, h => by
    obtain ⟨fragment, u, hrender, h⟩ := Action.bind_eq_ok.1 h
    obtain ⟨value, v, hstep, h⟩ := Action.bind_eq_ok.1 h
    obtain ⟨world, hevaluate, rfl⟩ := stepping_eq_ok.1 hstep
    obtain ⟨_, _, hset, h⟩ := Action.bind_eq_ok.1 h
    cases hset
    -- The new place is in parentheses, so the invariant on places holds by computation.
    rw [readsTruth_link_iff hrender hevaluate]
    exact told_generateLinks whole (next :: links) value nofun rfl h
termination_by structural links => links

/-- An operand that was boxed by its hint is not native, also when it stands alone. -/
theorem value_generateOperands :
    ∀ (operands : List Expr) (target : Value) {s s' : Session σ} {fs : List Fragment},
      s.context.place.isPlace = true →
        generateOperands classes operands target s = (.ok fs, s') →
          ∀ f ∈ fs, f.isNative = false ∧ f.clonesPlace = true
  | [], _, _, _, _, _, h => by
    cases h
    simp
  | operand :: operands, target, s, s', fs, hplace, h => by
    obtain ⟨first, u, hfirst, h⟩ := Action.bind_eq_ok.1 h
    obtain ⟨rest, v, hrest, h⟩ := Action.bind_eq_ok.1 h
    cases h
    obtain ⟨fragment, hfragment, rfl⟩ := asValue_eq_ok.1 hfirst
    have hkeeps : Preserves Context.place (operand.generate classes target) :=
      generate_place operand target
    have hkept := hkeeps s
    rw [hfragment] at hkept
    intro f hmem
    rcases List.mem_cons.1 hmem with rfl | hmem
    · exact (told_generate operand target hplace hfragment).asValue
    · exact value_generateOperands operands target (hkept ▸ hplace) hrest f hmem
termination_by structural operands => operands
end

end Expr

theorem Routine.body_eq_boxedText_iff {f : Fragment} (hf : f ≠ .blank) {hint : Option TypeHint} :
    body f.render hint = Fragment.boxedText f.render ↔ hint = some .boolean := by
  rw [body_render, Fragment.asValue_of_ne_blank hf]
  split
  · rename_i hhint
    simp [hhint, Fragment.render]
  · rename_i hhint
    refine ⟨fun h => ?_, fun h => absurd h hhint⟩
    -- A text is shorter than the same text boxed.
    have hlength := congrArg String.length h
    have hparen : ")".length = 1 := rfl
    simp only [Fragment.boxedText, String.length_append] at hlength
    omega

/-- A boolean hint and a native truth value go together in exactly the expressions that do not
end in a read of a truth value. In all others a value is taken for a native truth value: the
routine around it boxes it. -/
theorem boolean_hint_iff_native_iff {e : Expr} {target : Value} {s s' : Session σ} {f : Fragment}
    (hplace : s.context.place.isPlace = true) (h : e.generate classes target s = (.ok f, s')) :
    ((s'.context.currentType = some .boolean ↔ NativeText f.render) ↔
      ¬ e.ReadsTruth classes target s) ∧
    (¬ NativeText f.render ∧
        Routine.body f.render s'.context.currentType = Fragment.boxedText f.render ↔
      e.ReadsTruth classes target s) ∧
    (¬ NativeText f.render → ∀ code, f.meaning classes s.context target = some code →
      ∃ run, code = .value run) := by
  have htold := e.told_generate target hplace h
  rw [Fragment.nativeText_render_iff htold.clones]
  refine ⟨?_, ?_, ?_⟩
  · rw [htold.hint]
    constructor
    · intro hiff hreads
      exact htold.native (hiff.1 (.inr hreads)) hreads
    · intro hreads
      simp [hreads]
  · constructor
    · rintro ⟨hnative, hbody⟩
      have hblank : f ≠ .blank := by
        rintro rfl
        have hnull : Fragment.nullText = Fragment.boxedText "" := hbody
        exact absurd hnull (by decide)
      have hhint := (Routine.body_eq_boxedText_iff hblank).1 hbody
      exact (htold.hint.1 hhint).resolve_left hnative
    · intro hreads
      refine ⟨fun hnative => htold.native hnative hreads, ?_⟩
      exact (Routine.body_eq_boxedText_iff (htold.nonblank hreads)).2 (htold.hint.2 (.inr hreads))
  · intro hnative code hcode
    exact Fragment.exists_value_of_meaning (Bool.eq_false_iff.2 hnative) hcode

/-- The root is boxed as if it were a native truth value when it is a boolean. -/
theorem boolean_hint_of_boolean_root :
    let s : Session Unit := ⟨Context.new (.boolean true), World.start ()⟩
    let after := Expr.root.generate (fun _ => ClassTable.empty) s.context.root s
    let text := (Fragment.clone .rootPlace).render
    after.1 = .ok (.clone .rootPlace) ∧
      ¬ (after.2.context.currentType = some .boolean ↔ NativeText text) ∧
      Routine.body text after.2.context.currentType = Fragment.boxedText text := by
  refine ⟨rfl, ?_, rfl⟩
  intro hiff
  exact absurd (hiff.1 rfl) (by decide)

theorem boolean_hint_of_source_link :
    let s : Session Unit :=
      ⟨Context.new (.map (Dict.ofList [("done", .boolean true)])), World.start ()⟩
    let e := Expr.chain [.property "done", .source]
    let after := e.generate (fun _ => ClassTable.empty) s.context.root s
    let f := Fragment.clone (.group (.property .targetPlace "done"))
    after.1 = .ok f ∧ ¬ (after.2.context.currentType = some .boolean ↔ NativeText f.render) := by
  intro s e after f
  have hgenerate : e.generate (fun _ => ClassTable.empty) s.context.root s = (.ok f, after.2) := rfl
  have hreads : e.ReadsTruth (fun _ => ClassTable.empty) s.context.root s :=
    .link rfl rfl (.last (.source true))
  refine ⟨rfl, fun hiff => ?_⟩
  exact (boolean_hint_iff_native_iff rfl hgenerate).1.1 hiff hreads

end ObjectGraph
