import ObjectGraph.Evaluation
import ObjectGraph.Proofs.PlainData

/-!
# Relations kept by sequencing

Evaluation is made of a few navigation steps by returning values and by sequencing. So a
relation between two actions that holds of the steps, of returning and of sequencing holds of
whole evaluations. The two sides may differ in the class tables and in the context. A property
of a single run is a relation that looks at one side only.

Three layers are peeled off here: evaluation down to navigation steps, steps down to what they
ask of host objects, and that down to `reach`, the one gate to host code.
-/
namespace ObjectGraph

namespace Action

variable {S ε α β : Type}

/-- A sequence stops at an error of its first action or goes on from its result. -/
theorem bind_cases (a : Action S ε α) (f : α → Action S ε β) (s : S) :
    (∃ e t, a s = (.error e, t) ∧ (a >>= f) s = (.error e, t)) ∨
      ∃ x t, a s = (.ok x, t) ∧ (a >>= f) s = f x t := by
  cases hr : a s with
  | mk r t =>
    cases r with
    | error e => exact .inl ⟨e, t, rfl, bind_of_error hr⟩
    | ok x => exact .inr ⟨x, t, rfl, bind_of_ok hr⟩

theorem bind_eq_ok {a : Action S ε α} {f : α → Action S ε β} {s t : S} {y : β} :
    (a >>= f) s = (.ok y, t) ↔ ∃ x u, a s = (.ok x, u) ∧ f x u = (.ok y, t) := by
  constructor
  · intro h
    obtain ⟨e, u, _, hbind⟩ | ⟨x, u, ha, hbind⟩ := bind_cases a f s
    · rw [hbind] at h
      cases h
    · rw [hbind] at h
      exact ⟨x, u, ha, h⟩
  · rintro ⟨x, u, ha, hf⟩
    rw [bind_of_ok ha, hf]

end Action

/-- A relation between actions that returning a value and sequencing keep. -/
structure Sequenced {S ε : Type} (R : ∀ ⦃α : Type⦄, Action S ε α → Action S ε α → Prop) : Prop where
  pure {α : Type} (x : α) : R (Pure.pure x : Action S ε α) (Pure.pure x)
  bind {α β : Type} {a a' : Action S ε α} {f f' : α → Action S ε β} :
    R a a' → (∀ x, R (f x) (f' x)) → R (a >>= f) (a' >>= f')

theorem Sequenced.eq {S ε : Type} : Sequenced fun {_} (a a' : Action S ε _) => a = a' where
  pure _ := rfl
  bind ha hf := by rw [ha, funext hf]

/-- An error that tells of a breach of the elevation protocol. -/
def EvalError.isAccess : EvalError → Bool
  | access _ => true
  | _ => false

/-- The errors that navigation and assignment raise themselves, not the gate and not host code. -/
def EvalError.ofNavigation : EvalError → Bool
  | inaccessible _ _ => false
  | access _ => false
  | host _ _ => false
  | _ => true

theorem EvalError.ofNavigation_of_ofData {e : EvalError} (h : e.ofData = true) :
    e.ofNavigation = true := by
  cases e <;> first | rfl | exact absurd h Bool.false_ne_true

theorem EvalError.isAccess_of_ofNavigation {e : EvalError} (h : e.ofNavigation = true) :
    e.isAccess = false := by
  cases e <;> first | rfl | exact absurd h Bool.false_ne_true

/-- Refused, if at all, without a word about the elevation protocol. -/
def Attempt.Proper {σ α : Type} (a : Attempt σ α) : Prop :=
  ∀ e, a.outcome = .error e → e.isAccess = false

variable {σ : Type}

theorem Field.proper_reading (f : Field σ) (handle : String) : (f.reading handle).Proper := by
  intro e h
  cases h

theorem Field.proper_writing (f : Field σ) (member : Member) (handle : String) (value : Value) :
    (f.writing member handle value).Proper := by
  intro e h
  cases hw : f.write <;> simp only [Field.writing, hw] at h <;> cases h
  rfl

theorem Method.proper_invoking (m : Method σ) (name handle : String) (args : List Value) :
    (m.invoking name handle args).Proper := by
  intro e h
  simp only [Method.invoking] at h
  split at h
  · cases h
  · split at h <;> cases h
    rfl

theorem Indexer.proper_reading (ix : Indexer σ) (handle : String) (key : Value) :
    (ix.reading handle key).Proper := by
  intro e h
  cases h

theorem Indexer.proper_writing (ix : Indexer σ) (cls : ClassRef) (handle : String)
    (key value : Value) : (ix.writing cls handle key value).Proper := by
  intro e h
  cases hw : ix.write <;> simp only [Indexer.writing, hw] at h <;> cases h
  rfl

theorem Property.proper_reading (p : Property σ) (handle : String) :
    (p.reading handle).Proper := by
  cases p with
  | field name f => exact f.proper_reading handle
  | getter name m => exact m.proper_invoking name handle []

/-- The attempts that an access may come to: the accessors that the class has for the member that
the access is about, under the name that it was asked for. -/
inductive Accessor (classes : Registry σ) : Access → ∀ {α : Type}, Attempt σ α → Prop
  | property {o : ObjectRef} {name : String} {p : Property σ}
      (h : (classes o.cls).property? name = some p) :
      Accessor classes ⟨.object o, p.member o.cls, name⟩ (p.reading o.handle)
  | index {o : ObjectRef} {ix : Indexer σ} (h : (classes o.cls).indexer = some ix) (key : Value) :
      Accessor classes ⟨.object o, ix.member o.cls, indexerName⟩ (ix.reading o.handle key)
  | method {o : ObjectRef} {name : String} {m : Method σ}
      (h : (classes o.cls).method? name = some m) (args : List Value) :
      Accessor classes ⟨.object o, m.member o.cls name, name⟩ (m.invoking name o.handle args)
  | field {o : ObjectRef} {name : String} {f : Field σ}
      (h : (classes o.cls).field? name = some f) (value : Value) :
      Accessor classes ⟨.object o, f.member o.cls name, name⟩
        (f.writing (f.member o.cls name) o.handle value)
  /-- A setter has the `set_` name, but the access goes by the name of the property. -/
  | setter {o : ObjectRef} {name setter : String} {m : Method σ}
      (hfield : (classes o.cls).field? name = none)
      (h : (classes o.cls).setter? name = some (setter, m)) (value : Value) :
      Accessor classes ⟨.object o, m.member o.cls setter, name⟩
        (m.invoking setter o.handle [value])
  | indexSetter {o : ObjectRef} {ix : Indexer σ} (h : (classes o.cls).indexer = some ix)
      (key value : Value) :
      Accessor classes ⟨.object o, ix.member o.cls, indexerName⟩
        (ix.writing o.cls o.handle key value)

theorem Accessor.proper {classes : Registry σ} {access : Access} {α : Type} {attempt : Attempt σ α}
    (h : Accessor classes access attempt) : attempt.Proper := by
  cases h with
  | property => exact Property.proper_reading _ _
  | index => exact Indexer.proper_reading _ _ _
  | method => exact Method.proper_invoking _ _ _ _
  | field => exact Field.proper_writing _ _ _ _
  | setter => exact Method.proper_invoking _ _ _ _
  | indexSetter => exact Indexer.proper_writing _ _ _ _ _

/-! ## Evaluation down to navigation steps -/

/-- Two contexts of the same bindings whose navigation steps are related. -/
structure StepsRelated (classes classes' : Registry σ) (ctx ctx' : Context σ)
    (R : ∀ ⦃α : Type⦄, Run σ EvalError α → Run σ EvalError α → Prop) : Prop where
  bindings : ctx'.toBindings = ctx.toBindings
  property (here : Value) (name : String) :
    R (Navigation.getProperty classes ctx here name)
      (Navigation.getProperty classes' ctx' here name)
  index (here key : Value) :
    R (Navigation.getIndex classes ctx here key) (Navigation.getIndex classes' ctx' here key)
  subscript (here : Value) (s : Subscript) :
    R (Navigation.getSubscript ctx here s) (Navigation.getSubscript ctx' here s)
  method (here : Value) (name : String) (args : List Value) :
    R (Navigation.callMethod classes ctx here name args)
      (Navigation.callMethod classes' ctx' here name args)

section Evaluation

variable {classes classes' : Registry σ} {ctx ctx' : Context σ}
  {R : ∀ ⦃α : Type⦄, Run σ EvalError α → Run σ EvalError α → Prop}

namespace StepsRelated

theorem root (h : StepsRelated classes classes' ctx ctx' R) : ctx'.root = ctx.root := by
  rw [h.bindings]

theorem valueOf (h : StepsRelated classes classes' ctx ctx' R) (name : String) :
    ctx'.valueOf name = ctx.valueOf name := by
  simp only [Context.valueOf, h.bindings]

end StepsRelated

namespace Expr

mutual
theorem related_evaluate (hR : Sequenced R) (hsteps : StepsRelated classes classes' ctx ctx' R) :
    ∀ (e : Expr) (here : Value), R (e.evaluate classes ctx here) (e.evaluate classes' ctx' here)
  | const literal, _ => hR.pure literal.toValue
  | root, _ => by
    simp only [evaluate, hsteps.root]
    exact hR.pure ctx.root
  | source, here => hR.pure here
  | var name, _ => by
    simp only [evaluate, hsteps.valueOf]
    exact hR.pure (ctx.valueOf name)
  | property name, here => hsteps.property here name
  | index key, here => by
    simp only [evaluate, hsteps.root]
    exact hR.bind (related_evaluate hR hsteps key ctx.root) fun k => hsteps.index here k
  | subscript s, here => hsteps.subscript here s
  | method name args, here =>
    hR.bind (related_evaluateArgs hR hsteps args) fun values => hsteps.method here name values
  | chain links, here => related_evaluateLinks hR hsteps links here
  | not operand, here =>
    hR.bind (related_evaluate hR hsteps operand here) fun v => hR.pure (Value.boolean !v.truthy)
  | logical op operands, here => related_evaluateOperands hR hsteps op operands _ here
  | compare op left right, here =>
    hR.bind (related_evaluate hR hsteps left here) fun l =>
      hR.bind (related_evaluate hR hsteps right here) fun r =>
        hR.pure (Value.boolean (op.apply (l.equals r)))
termination_by structural e => e

theorem related_evaluateArgs (hR : Sequenced R)
    (hsteps : StepsRelated classes classes' ctx ctx' R) :
    ∀ args : List Expr, R (evaluateArgs classes ctx args) (evaluateArgs classes' ctx' args)
  | [] => hR.pure []
  | arg :: args => by
    simp only [evaluateArgs, hsteps.root]
    exact hR.bind (related_evaluate hR hsteps arg ctx.root) fun value =>
      hR.bind (related_evaluateArgs hR hsteps args) fun values => hR.pure (value :: values)
termination_by structural args => args

theorem related_evaluateLinks (hR : Sequenced R)
    (hsteps : StepsRelated classes classes' ctx ctx' R) :
    ∀ (links : List Expr) (here : Value),
      R (evaluateLinks classes ctx links here) (evaluateLinks classes' ctx' links here)
  | [], here => hR.pure here
  | link :: links, here =>
    hR.bind (related_evaluate hR hsteps link here) fun value =>
      related_evaluateLinks hR hsteps links value
termination_by structural links => links

theorem related_evaluateOperands (hR : Sequenced R)
    (hsteps : StepsRelated classes classes' ctx ctx' R) (op : Connective) :
    ∀ (operands : List Expr) (last here : Value),
      R (evaluateOperands classes ctx op operands last here)
        (evaluateOperands classes' ctx' op operands last here)
  | [], last, _ => hR.pure last
  | operand :: operands, _, here =>
    hR.bind (related_evaluate hR hsteps operand here) fun value => by
      by_cases hstop : op.stopsAt value.truthy
      · simp only [hstop, if_true]
        exact hR.pure value
      · simp only [hstop]
        exact related_evaluateOperands hR hsteps op operands value here
termination_by structural operands => operands
end

end Expr

/-! ## Steps down to host objects -/

/-- Two contexts that are related in what navigation asks of host objects and in what it does
around them. -/
structure HostRelated (classes classes' : Registry σ) (ctx ctx' : Context σ)
    (R : ∀ ⦃α : Type⦄, Run σ EvalError α → Run σ EvalError α → Prop) : Prop where
  bindings : ctx'.toBindings = ctx.toBindings
  fail {α : Type} {e : EvalError} (he : e.ofData = true) :
    R (Action.fail e : Run σ EvalError α) (Action.fail e)
  navigate (step : Step) {a a' : Run σ EvalError Value} (h : R a a') :
    R (Navigation.navigate ctx step a) (Navigation.navigate ctx' step a')
  property (o : ObjectRef) (name : String) :
    R (Navigation.readProperty classes ctx o name) (Navigation.readProperty classes' ctx' o name)
  index (o : ObjectRef) (key : Value) :
    R (Navigation.indexOf classes ctx (.object o) key)
      (Navigation.indexOf classes' ctx' (.object o) key)
  method (o : ObjectRef) (name : String) (args : List Value) :
    R (Navigation.resultOf classes ctx (.object o) name args)
      (Navigation.resultOf classes' ctx' (.object o) name args)

namespace HostRelated

theorem ofExcept (hR : Sequenced R) (h : HostRelated classes classes' ctx ctx' R)
    {result : Except EvalError Value} (hresult : Yields (fun _ => True) result) :
    R (Action.ofExcept result) (Action.ofExcept result) := by
  cases result with
  | ok v => exact hR.pure v
  | error e => exact h.fail hresult

theorem propertyOf (hR : Sequenced R) (h : HostRelated classes classes' ctx ctx' R)
    (source : Value) (name : String) :
    R (Navigation.propertyOf classes ctx source name)
      (Navigation.propertyOf classes' ctx' source name) := by
  cases source with
  | object o => exact h.property o name
  | map entries => exact hR.pure (Builtin.entryAt entries name)
  | array items =>
    simp only [Navigation.propertyOf]
    split
    · exact hR.pure (Value.ofNat items.length)
    · exact h.fail rfl
  | string s =>
    simp only [Navigation.propertyOf]
    split
    · exact hR.pure (Value.ofNat s.length)
    · exact h.fail rfl
  | null => exact h.fail rfl
  | boolean b => exact h.fail rfl
  | integer n => exact h.fail rfl
  | float x => exact h.fail rfl

theorem indexOf (hR : Sequenced R) (h : HostRelated classes classes' ctx ctx' R)
    (source key : Value) :
    R (Navigation.indexOf classes ctx source key)
      (Navigation.indexOf classes' ctx' source key) := by
  cases source with
  | object o => exact h.index o key
  | map entries => exact hR.pure (Builtin.entryAt entries (Navigation.keyText key))
  | array items =>
    cases key with
    | integer index =>
      exact h.ofExcept hR (Builtin.yields_itemAt Value.handedDown_true trivial index)
    | _ => exact h.fail rfl
  | _ => exact h.fail rfl

theorem resultOf (hR : Sequenced R) (h : HostRelated classes classes' ctx ctx' R)
    (source : Value) (name : String) (args : List Value) :
    R (Navigation.resultOf classes ctx source name args)
      (Navigation.resultOf classes' ctx' source name args) := by
  cases source with
  | object o => exact h.method o name args
  | null => exact h.fail rfl
  | _ => exact h.ofExcept hR (Builtin.yields_call Value.handedDown_true trivial name args)

theorem steps (hR : Sequenced R) (h : HostRelated classes classes' ctx ctx' R) :
    StepsRelated classes classes' ctx ctx' R where
  bindings := h.bindings
  property here name := h.navigate _ (h.propertyOf hR here name)
  index here key := h.navigate _ (h.indexOf hR here key)
  subscript _ s :=
    h.navigate _ (h.ofExcept hR (Navigation.yields_subscriptOf Value.handedDown_true trivial s))
  method here name args := h.navigate _ (h.resultOf hR here name args)

end HostRelated

/-! ## Host objects down to the gate -/

/-- Two contexts that are related in every passage to the host code of the classes. -/
structure ReachRelated (classes : Registry σ) (ctx ctx' : Context σ)
    (R : ∀ ⦃α : Type⦄, Run σ EvalError α → Run σ EvalError α → Prop) : Prop where
  bindings : ctx'.toBindings = ctx.toBindings
  fail {α : Type} {e : EvalError} (he : e.ofNavigation = true) :
    R (Action.fail e : Run σ EvalError α) (Action.fail e)
  navigate (step : Step) {a a' : Run σ EvalError Value} (h : R a a') :
    R (Navigation.navigate ctx step a) (Navigation.navigate ctx' step a')
  assigning (target : Value) (key : Key) (value : Value) :
    R (World.note (.assigning target key value)) (World.note (.assigning target key value))
  reach {α : Type} (o : ObjectRef) (member : Member) (property : String) {attempt : Attempt σ α}
    (h : Accessor classes ⟨.object o, member, property⟩ attempt) :
    R (Navigation.reach ctx o member property attempt)
      (Navigation.reach ctx' o member property attempt)

namespace ReachRelated

theorem readProperty (h : ReachRelated classes ctx ctx' R) (o : ObjectRef) (name : String) :
    R (Navigation.readProperty classes ctx o name)
      (Navigation.readProperty classes ctx' o name) := by
  unfold Navigation.readProperty
  split
  · next hproperty => exact h.reach o _ name (.property hproperty)
  · exact h.fail rfl

theorem host (h : ReachRelated classes ctx ctx' R) : HostRelated classes classes ctx ctx' R where
  bindings := h.bindings
  fail he := h.fail (EvalError.ofNavigation_of_ofData he)
  navigate := h.navigate
  property := h.readProperty
  index o key := by
    simp only [Navigation.indexOf]
    split
    · next hindexer => exact h.reach o _ indexerName (.index hindexer key)
    · split
      · exact h.readProperty o _
      · exact h.fail rfl
  method o name args := by
    simp only [Navigation.resultOf]
    split
    · next hmethod => exact h.reach o _ name (.method hmethod args)
    · exact h.fail rfl

theorem writeProperty (hR : Sequenced R) (h : ReachRelated classes ctx ctx' R) (target : Value)
    (name : String) (value : Value) :
    R (Navigation.writeProperty classes ctx target name value)
      (Navigation.writeProperty classes ctx' target name value) := by
  cases target with
  | object o =>
    simp only [Navigation.writeProperty]
    split
    · next hfield => exact h.reach o _ name (.field hfield value)
    · next hfield =>
      split
      · next hsetter =>
        exact hR.bind (h.reach o _ name (.setter hfield hsetter value)) fun _ => hR.pure ()
      · exact h.fail rfl
  | _ => exact h.fail rfl

theorem setProperty (hR : Sequenced R) (h : ReachRelated classes ctx ctx' R) (target : Value)
    (name : String) (value : Value) :
    R (Navigation.setProperty classes ctx target name value)
      (Navigation.setProperty classes ctx' target name value) :=
  hR.bind (h.assigning target (.name name) value) fun _ => h.writeProperty hR target name value

theorem writeIndex (hR : Sequenced R) (h : ReachRelated classes ctx ctx' R)
    (target key value : Value) :
    R (Navigation.writeIndex classes ctx target key value)
      (Navigation.writeIndex classes ctx' target key value) := by
  cases target with
  | object o =>
    simp only [Navigation.writeIndex]
    split
    · next hindexer => exact h.reach o _ indexerName (.indexSetter hindexer key value)
    · split
      · exact h.writeProperty hR _ _ value
      · exact h.fail rfl
  | _ => exact h.fail rfl

theorem setIndex (hR : Sequenced R) (h : ReachRelated classes ctx ctx' R)
    (target key value : Value) :
    R (Navigation.setIndex classes ctx target key value)
      (Navigation.setIndex classes ctx' target key value) :=
  hR.bind (h.assigning target (.index key) value) fun _ => h.writeIndex hR target key value

theorem evaluate (hR : Sequenced R) (h : ReachRelated classes ctx ctx' R) (e : Expr)
    (here : Value) :
    R (e.evaluate classes ctx here) (e.evaluate classes ctx' here) :=
  e.related_evaluate hR (h.host.steps hR) here

end ReachRelated
end Evaluation
end ObjectGraph
