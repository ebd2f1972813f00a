import ObjectGraph.Proofs.Renderability

/-!
# Static hints

The hint that a generation leaves is the hint of the expression's tip. It is dynamic for
navigation, connectives and what has no text; in all other cases it is a promise. Over plain data
the promise is kept: whenever the evaluation has a value, the value is of that type.
-/
namespace ObjectGraph

variable {σ : Type} {classes : Registry σ} {ctx : Context σ}

theorem Value.typeHint_ne_dynamic (v : Value) : v.typeHint ≠ .dynamic := by
  cases v <;> simp [Value.typeHint]

/-- Whether the type of an expression that is no chain is known without evaluating it. -/
def Expr.isTyped (vars : Dict Value) : Expr → Bool
  | const _ => true
  | root => true
  | source => true
  | var name => vars.contains name
  | not _ => true
  | compare _ _ _ => true
  | _ => false

/-- What a hint promises about an evaluation. It promises something if the type is known. -/
structure Foretells (hint : Option TypeHint) (typed : Bool) (a : Run σ EvalError Value) : Prop where
  known : ∃ h, hint = some h ∧ (h ≠ .dynamic ↔ typed = true)
  kept {h : TypeHint} (hhint : hint = some h) (hknown : h ≠ .dynamic) {w w' : World σ} {v : Value}
    (hrun : a w = (.ok v, w')) : v.typeHint = h

namespace Foretells

variable {a : Run σ EvalError Value} {hint : Option TypeHint} {typed : Bool}

theorem dynamic : Foretells (some .dynamic) false a where
  known := ⟨.dynamic, rfl, by simp⟩
  kept hhint hknown := absurd (Option.some.inj hhint).symm hknown

theorem ofType {h : TypeHint} (hknown : h ≠ .dynamic)
    (hkept : ∀ {w w' v}, a w = (.ok v, w') → v.typeHint = h) : Foretells (some h) true a where
  known := ⟨h, rfl, by simp [hknown]⟩
  kept hhint _ _ _ _ hrun := by
    rw [hkept hrun]
    exact Option.some.inj hhint

theorem ofValue (v : Value) :
    Foretells (some v.typeHint) true (pure v : Run σ EvalError Value) := by
  refine ofType v.typeHint_ne_dynamic ?_
  rintro w w' v' ⟨⟩
  rfl

/-- A promise about what comes next holds of the sequence when the first step has one value. -/
theorem after {β : Type} {first : Run σ EvalError β} {x : β} {f : β → Run σ EvalError Value}
    (h : Foretells hint typed (f x)) (hfirst : Steady first (.ok x)) :
    Foretells hint typed (first >>= f) where
  known := h.known
  kept hhint hknown w _ _ hrun := by
    obtain ⟨y, u, hy, hnext⟩ := Action.bind_eq_ok.1 hrun
    have hsame := hfirst w
    rw [hy] at hsame
    cases hsame
    exact h.kept hhint hknown hnext

end Foretells

namespace Expr

open Generation

mutual
/-- The hint of a generation is a promise about the evaluation. By recursion along the last links
of chains: no other part of an expression has a say in its hint. -/
theorem foretells_generate : ∀ (e : Expr) {here : Value} {s s' : Session σ} {f : Fragment},
    Generating ctx s → here.Plain → e.generate classes here s = (.ok f, s') →
      Foretells s'.context.currentType (e.tip.isTyped ctx.vars) (e.evaluate classes ctx here)
  | const literal, here, s, s', f, _, _, h => by
    cases h
    exact .ofValue literal.toValue
  | root, here, s, s', f, hs, _, h => by
    cases h
    have hvalue : Foretells (some s.context.root.typeHint) true
        (pure ctx.root : Run σ EvalError Value) := by
      rw [hs.root_eq]
      exact .ofValue ctx.root
    exact hvalue
  | source, here, s, s', f, _, _, h => by
    cases h
    exact .ofValue here
  | var name, here, s, s', f, hs, _, h => by
    cases h
    have hvars : s.context.vars = ctx.vars := Context.vars_of_reset hs.context
    simp only [Context.setCurrentType, hvars, tip, isTyped, evaluate, Context.valueOf,
      Entries.contains]
    cases ctx.vars.find? name with
    | none => exact .dynamic
    | some v => exact .ofValue v
  | property name, here, s, s', f, _, _, h => by
    obtain ⟨_, u, _, hnavigate⟩ := Action.bind_eq_ok.1 h
    cases hnavigate
    exact .dynamic
  | index key, here, s, s', f, _, _, h => by
    obtain ⟨_, u, _, hnavigate⟩ := Action.bind_eq_ok.1 h
    cases hnavigate
    exact .dynamic
  | subscript t, here, s, s', f, _, _, h => by
    cases h
    exact .dynamic
  | method name args, here, s, s', f, _, _, h => by
    obtain ⟨_, u, _, h⟩ := Action.bind_eq_ok.1 h
    obtain ⟨_, v, _, hnavigate⟩ := Action.bind_eq_ok.1 h
    cases hnavigate
    exact .dynamic
  | chain [], here, s, s', f, _, _, h => by
    cases h
    exact .dynamic
  | chain (link :: links), here, s, s', f, hs, hhere, h => by
    obtain ⟨u, hlinks, rfl⟩ := keepingPlace_eq_ok.1 h
    have hforetells := foretells_generateLinks _ (link :: links) nofun hs hhere hlinks
    exact hforetells
  | not operand, here, s, s', f, _, _, h => by
    obtain ⟨_, u, _, hreturn⟩ := Action.bind_eq_ok.1 h
    cases hreturn
    refine .ofType nofun fun hrun => ?_
    obtain ⟨_, _, _, hvalue⟩ := Action.bind_eq_ok.1 hrun
    cases hvalue
    rfl
  | logical op operands, here, s, s', f, _, _, h => by
    obtain ⟨_, u, _, hreturn⟩ := Action.bind_eq_ok.1 h
    cases hreturn
    exact .dynamic
  | compare op left right, here, s, s', f, _, _, h => by
    obtain ⟨_, u, _, h⟩ := Action.bind_eq_ok.1 h
    obtain ⟨_, v, _, hreturn⟩ := Action.bind_eq_ok.1 h
    cases hreturn
    refine .ofType nofun fun hrun => ?_
    obtain ⟨_, _, _, hrun⟩ := Action.bind_eq_ok.1 hrun
    obtain ⟨_, _, _, hvalue⟩ := Action.bind_eq_ok.1 hrun
    cases hvalue
    rfl
termination_by structural e => e

theorem foretells_generateLinks (whole : Expr) : ∀ (links : List Expr) {here : Value}
    {s s' : Session σ} {f : Fragment}, links ≠ [] → Generating ctx s → here.Plain →
      generateLinks classes whole links here s = (.ok f, s') →
        Foretells s'.context.currentType ((tipOfLinks links).isTyped ctx.vars)
          (evaluateLinks classes ctx links here)
  | [], _, _, _, _, hne, _, _, _ => absurd rfl hne
  | [last], here, s, s', f, _, hs, hhere, h => by
    have hlinks : evaluateLinks classes ctx [last] here = last.evaluate classes ctx here := by
      simp only [evaluateLinks, bind_pure]
    rw [hlinks]
    exact foretells_generate last hs hhere h
  | link :: next :: links, here, s, s', f, _, hs, hhere, h => by
    obtain ⟨fragment, u, hlink, h⟩ := Action.bind_eq_ok.1 h
    obtain ⟨value, v, hstep, h⟩ := Action.bind_eq_ok.1 h
    obtain ⟨_, _, hset, hlinks⟩ := Action.bind_eq_ok.1 h
    cases hset
    have hu : Generating ctx u := hs.after (link.asValue_reset here) hlink
    have hkeeps : Preserves Context.reset (stepping classes whole link here) :=
      (preserves_stepping whole link here).of_id
    have hv : Generating ctx v := hu.after hkeeps hstep
    -- The links that are left are rendered against the very value that they are evaluated on.
    obtain ⟨hsteady, hplain⟩ := hu.steady_of_stepping hhere hstep
    have hrest := foretells_generateLinks whole (next :: links) nofun
      (hv.moved (.group fragment)) hplain hlinks
    exact hrest.after hsteady
termination_by structural links => links
end

end Expr

/-- Over plain data a generation that succeeds leaves a hint. The hint is dynamic exactly when the
expression's tip has no type that is known beforehand; if it is not dynamic, the value to which the
expression evaluates, in any world and however often generation has used the context since, is of
the type that the hint names. -/
theorem static_hint_sound {e : Expr} {here : Value} {s s' : Session σ} {f : Fragment}
    (hctx : s.context.Plain) (hhere : here.Plain) (h : e.generate classes here s = (.ok f, s')) :
    ∃ hint, s'.context.currentType = some hint ∧
      (hint ≠ .dynamic ↔ e.tip.isTyped s.context.vars = true) ∧
      (hint ≠ .dynamic → ∀ (ctx : Context σ), ctx.reset = s.context.reset →
        ∀ (w w' : World σ) (v : Value), e.evaluate classes ctx here w = (.ok v, w') →
          v.typeHint = hint) := by
  have hforetells := e.foretells_generate ⟨hctx, rfl⟩ hhere h
  obtain ⟨hint, hhint, htyped⟩ := hforetells.known
  refine ⟨hint, hhint, htyped, ?_⟩
  intro hknown ctx hreset w w' v hrun
  rw [e.evaluate_of_reset hreset] at hrun
  exact hforetells.kept hhint hknown hrun

/-- The last link of the inner chain is the source, which is a string by then. -/
theorem static_hint_of_source_link :
    let user := Value.map (Dict.ofList [("name", .string "ada")])
    let s : Session Unit := ⟨Context.new (.map (Dict.ofList [("user", user)])), World.start ()⟩
    let e := Expr.chain [.property "user", .chain [.property "name", .source]]
    let after := e.generate (fun _ => ClassTable.empty) s.context.root s
    after.2.context.currentType = some .string ∧
      ∀ (w w' : World Unit) (v : Value),
        e.evaluate (fun _ => ClassTable.empty) s.context s.context.root w = (.ok v, w') →
          v.typeHint = .string := by
  intro user s e after
  have hctx : s.context.Plain := ⟨rfl, nofun, nofun⟩
  have hgenerate : after = (.ok (.clone (.group (.property
      (.group (.property .targetPlace "user")) "name"))), after.2) := rfl
  obtain ⟨hint, hhint, -, hsound⟩ := static_hint_sound hctx rfl hgenerate
  have hstring : hint = .string := (Option.some.inj hhint).symm
  subst hstring
  exact ⟨rfl, hsound nofun s.context rfl⟩

end ObjectGraph
