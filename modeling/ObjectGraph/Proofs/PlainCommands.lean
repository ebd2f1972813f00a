import ObjectGraph.Command
import ObjectGraph.Proofs.PlainIndifference

/-!
# Commands and the policy

What JSON texts can express is plain data. So a command works where no host object is within
reach: its answer does not depend on the policy, and no handle of a host object gets into it.
-/
namespace ObjectGraph

/-! ## Handles in JSON -/

namespace Value

mutual
/-- The value as JSON, with the host objects in it written in a way of their own. -/
def toJsonWith (handle : ObjectRef → Json) : Value → Json
  | null => .null
  | boolean b => .boolean b
  | integer n => .number (.integer n)
  | float x => floatJson x
  | string s => .string s
  | array items => .array (toJsonItemsWith handle items)
  | map entries => .object (toJsonEntriesWith handle entries)
  | object o => handle o
termination_by structural v => v

def toJsonItemsWith (handle : ObjectRef → Json) : List Value → List Json
  | [] => []
  | item :: items => item.toJsonWith handle :: toJsonItemsWith handle items
termination_by structural items => items

def toJsonEntriesWith (handle : ObjectRef → Json) {bound : Option String} :
    Entries Value bound → Entries Json bound
  | .nil => .nil
  | .cons key value above rest =>
    .cons key (value.toJsonWith handle) above (toJsonEntriesWith handle rest)
termination_by structural entries => entries
end

mutual
theorem toJsonWith_display : ∀ v : Value, v.toJsonWith (fun o => .string o.display) = v.toJson
  | null => rfl
  | boolean _ => rfl
  | integer _ => rfl
  | float _ => rfl
  | string _ => rfl
  | array items => congrArg Json.array (toJsonItemsWith_display items)
  | map entries => congrArg Json.object (toJsonEntriesWith_display entries)
  | object _ => rfl

theorem toJsonItemsWith_display : ∀ items : List Value,
    toJsonItemsWith (fun o => .string o.display) items = toJsonItems items
  | [] => rfl
  | item :: items => by
    rw [toJsonItemsWith, toJsonItems, toJsonWith_display item, toJsonItemsWith_display items]

theorem toJsonEntriesWith_display {bound : Option String} : ∀ entries : Entries Value bound,
    toJsonEntriesWith (fun o => .string o.display) entries = toJsonEntries entries
  | .nil => rfl
  | .cons _ value _ rest => by
    rw [toJsonEntriesWith, toJsonEntries, toJsonWith_display value,
      toJsonEntriesWith_display rest]
end

section Plain

variable (handle handle' : ObjectRef → Json)

mutual
/-- No handle is written for plain data. -/
theorem toJsonWith_of_plain : ∀ {v : Value}, v.Plain → v.toJsonWith handle = v.toJsonWith handle'
  | null, _ => rfl
  | boolean _, _ => rfl
  | integer _, _ => rfl
  | float _, _ => rfl
  | string _, _ => rfl
  | array _, h => congrArg Json.array (toJsonItemsWith_of_plain _ h)
  | map _, h => congrArg Json.object (toJsonEntriesWith_of_plain _ h)
  | object _, h => nomatch h

theorem toJsonItemsWith_of_plain : ∀ items : List Value, plainItems items = true →
    toJsonItemsWith handle items = toJsonItemsWith handle' items
  | [], _ => rfl
  | _ :: items, h => by
    simp only [plainItems, Bool.and_eq_true] at h
    rw [toJsonItemsWith, toJsonItemsWith, toJsonWith_of_plain h.1,
      toJsonItemsWith_of_plain items h.2]

theorem toJsonEntriesWith_of_plain {bound : Option String} : ∀ entries : Entries Value bound,
    plainEntries entries = true →
      toJsonEntriesWith handle entries = toJsonEntriesWith handle' entries
  | .nil, _ => rfl
  | .cons _ _ _ rest, h => by
    simp only [plainEntries, Bool.and_eq_true] at h
    rw [toJsonEntriesWith, toJsonEntriesWith, toJsonWith_of_plain h.1,
      toJsonEntriesWith_of_plain rest h.2]
end

end Plain

/-! ## What JSON can express -/

theorem plain_ofNumber (n : Json.Number) : (ofNumber n).Plain := by
  cases n <;> rfl

mutual
theorem plain_ofJson : ∀ json : Json, (ofJson json).Plain
  | .null => rfl
  | .boolean _ => rfl
  | .number n => plain_ofNumber n
  | .string _ => rfl
  | .array items => plain_ofJsonItems items
  | .object members => plain_ofJsonMembers members

theorem plain_ofJsonItems : ∀ items : List Json, plainItems (ofJsonItems items) = true
  | [] => rfl
  | item :: items => by
    simp only [ofJsonItems, plainItems, plain_ofJson item, plain_ofJsonItems items, Bool.and_self]

theorem plain_ofJsonMembers {bound : Option String} :
    ∀ members : Entries Json bound, plainEntries (ofJsonMembers members) = true
  | .nil => rfl
  | .cons _ value _ rest => by
    simp only [ofJsonMembers, plainEntries, plain_ofJson value, plain_ofJsonMembers rest,
      Bool.and_self]
end

end Value

/-! ## The context of a command -/

namespace Context

variable {σ : Type} {ctx : Context σ}

theorem objectless_new {root : Value} (h : root.Plain) :
    (Context.new root : Context σ).Objectless :=
  ⟨h, nofun, nofun⟩

theorem Objectless.withPolicy (h : ctx.Objectless) (P : Policy σ) :
    (ctx.withPolicy P).Objectless :=
  ⟨h.root, h.vars, h.nulls⟩

/-- Handlers see the variables. So this is about contexts that have no handlers yet. -/
theorem Objectless.setVariable (h : ctx.Objectless) (hnulls : ctx.nulls = NullHandlers.none)
    (name : String) {v : Value} (hv : v.Plain) : (ctx.setVariable name v).Objectless where
  root := h.root
  vars {wanted u} hfind := by
    change (ctx.vars.insert name v).find? wanted = some u at hfind
    rw [Dict.find?_insert] at hfind
    split at hfind
    · cases hfind
      exact hv
    · exact h.vars hfind
  nulls {typeName slot handler} hhandler := by
    change ctx.nulls.handler? typeName = some (slot, handler) at hhandler
    rw [hnulls] at hhandler
    cases hhandler

theorem Objectless.withDefault (h : ctx.Objectless) {v : Value} (hv : v.Plain) :
    Objectless { ctx with nulls := { ctx.nulls with fallback := some (.constant v) } } where
  root := h.root
  vars := h.vars
  nulls {typeName slot handler} hhandler := by
    unfold NullHandlers.handler? at hhandler
    cases hfind : ctx.nulls.byType.find? typeName with
    | some own =>
      have hown : ctx.nulls.handler? typeName = some (some typeName, own) := by
        simp only [NullHandlers.handler?, hfind]
      simp only [hfind, Option.some.injEq, Prod.mk.injEq] at hhandler
      obtain ⟨-, rfl⟩ := hhandler
      exact h.nulls hown
    | none =>
      simp only [hfind, Option.map_some, Option.some.injEq, Prod.mk.injEq] at hhandler
      obtain ⟨-, rfl⟩ := hhandler
      rintro (_ | _) _ _ <;> exact hv

end Context

namespace Command

variable {ctx ctx' : Context Unit} {task : Task}

theorem bind_eq_ok {α β : Type} {x : Except CommandError α} {f : α → Except CommandError β}
    {b : β} : (x >>= f) = .ok b ↔ ∃ a, x = .ok a ∧ f a = .ok b := by
  cases x with
  | error e => exact ⟨nofun, fun ⟨_, h, _⟩ => nomatch h⟩
  | ok a => exact ⟨fun h => ⟨a, rfl, h⟩, by rintro ⟨_, ⟨⟩, h⟩; exact h⟩

theorem plain_of_readValue {text : String} {v : Value} (h : readValue text = .ok v) : v.Plain := by
  unfold readValue at h
  split at h
  · cases h
    exact Value.plain_ofJson _
  · cases h

theorem plain_of_readBinding {binding name : String} {v : Value}
    (h : readBinding binding = .ok (name, v)) : v.Plain := by
  unfold readBinding at h
  split at h
  · obtain ⟨u, hu, hpair⟩ := bind_eq_ok.1 h
    cases hpair
    exact plain_of_readValue hu
  · cases h

theorem objectless_of_readBindings : ∀ {bindings : List String} {ctx : Context Unit},
    readBindings bindings ctx = .ok ctx' → ctx.Objectless → ctx.nulls = NullHandlers.none →
      ctx'.Objectless
  | [], _, h, hctx, _ => by
    cases h
    exact hctx
  | _ :: _, _, h, hctx, hnulls => by
    obtain ⟨⟨name, v⟩, hbinding, hrest⟩ := bind_eq_ok.1 h
    exact objectless_of_readBindings hrest
      (hctx.setVariable hnulls name (plain_of_readBinding hbinding)) hnulls

/-- Null without an input. -/
def readRoot : Option String → Except CommandError Value
  | none => .ok .null
  | some text => readValue text

theorem plain_of_readRoot : ∀ {input : Option String} {v : Value}, readRoot input = .ok v → v.Plain
  | none, _, h => by
    cases h
    rfl
  | some _, _, h => plain_of_readValue h

theorem readContext_eq (task : Task) :
    readContext task = readRoot task.input >>= fun root => readBindings task.bindings
      ((Context.new root).withPolicy (VisibilityPolicy.all task.allowAll).toPolicy) := by
  unfold readContext
  cases task.input <;> rfl

theorem objectless_of_readContext (h : readContext task = .ok ctx) : ctx.Objectless := by
  rw [readContext_eq] at h
  obtain ⟨root, hroot, hbindings⟩ := bind_eq_ok.1 h
  exact objectless_of_readBindings hbindings
    ((Context.objectless_new (plain_of_readRoot hroot)).withPolicy _) rfl

theorem readBindings_withPolicy (P : Policy Unit) : ∀ (bindings : List String) (ctx : Context Unit),
    readBindings bindings (ctx.withPolicy P) = (readBindings bindings ctx).map (·.withPolicy P)
  | [], _ => rfl
  | binding :: bindings, ctx => by
    simp only [readBindings]
    cases readBinding binding with
    | error e => rfl
    | ok entry => exact readBindings_withPolicy P bindings (ctx.setVariable entry.1 entry.2)

/-- The switch for private members is in the policy only. -/
theorem readContext_allowAll (task : Task) (allowAll : Bool) :
    readContext { task with allowAll } =
      (readContext task).map (·.withPolicy (VisibilityPolicy.all allowAll).toPolicy) := by
  rw [readContext_eq, readContext_eq]
  cases readRoot task.input with
  | error e => rfl
  | ok root =>
    exact readBindings_withPolicy _ task.bindings
      ((Context.new root).withPolicy (VisibilityPolicy.all task.allowAll).toPolicy)

/-- The context of an evaluation, with the substitute for null. -/
def readDefault (ctx : Context Unit) : Option String → Except CommandError (Context Unit)
  | none => .ok ctx
  | some text => do
    let substitute ← readValue text
    return { ctx with nulls := { ctx.nulls with fallback := some (.constant substitute) } }

theorem readDefault_withPolicy (P : Policy Unit) (ctx : Context Unit)
    (nullDefault : Option String) :
    readDefault (ctx.withPolicy P) nullDefault =
      (readDefault ctx nullDefault).map (·.withPolicy P) := by
  cases nullDefault with
  | none => rfl
  | some text =>
    simp only [readDefault]
    cases readValue text <;> rfl

theorem objectless_of_readDefault {nullDefault : Option String}
    (h : readDefault ctx nullDefault = .ok ctx') (hctx : ctx.Objectless) : ctx'.Objectless := by
  cases nullDefault with
  | none =>
    cases h
    exact hctx
  | some text =>
    obtain ⟨substitute, hsubstitute, hctx'⟩ := bind_eq_ok.1 h
    cases hctx'
    exact hctx.withDefault (plain_of_readValue hsubstitute)

/-- The value of the expression as JSON. -/
def answer (e : Expr) (ctx : Context Unit) : Except CommandError Json :=
  match (e.value noClasses ctx (World.start ())).1 with
  | .ok value => .ok value.toJson
  | .error cause => .error (.eval cause)

theorem evaluate_eq (task : Task) (nullDefault : Option String) :
    evaluate task nullDefault = readExpr task.expression >>= fun e =>
      readContext task >>= fun ctx => readDefault ctx nullDefault >>= answer e := by
  unfold evaluate
  cases nullDefault with
  | none => rfl
  | some text =>
    simp only [readDefault, bind_assoc, pure_bind]
    rfl

theorem answer_withPolicy (e : Expr) (hctx : ctx.Objectless) (P : Policy Unit) :
    answer e (ctx.withPolicy P) = answer e ctx := by
  have h := e.indifferent_evaluate noClasses P hctx hctx.root (World.start ())
  unfold answer Expr.value
  rw [← h.1]
  rfl

theorem evaluate_allowAll (task : Task) (nullDefault : Option String) (allowAll : Bool) :
    evaluate { task with allowAll } nullDefault = evaluate task nullDefault := by
  rw [evaluate_eq, evaluate_eq]
  refine bind_congr fun e => ?_
  rw [readContext_allowAll]
  cases hctx : readContext task with
  | error _ => rfl
  | ok ctx =>
    change (readDefault (ctx.withPolicy _) nullDefault >>= _) = (readDefault ctx nullDefault >>= _)
    rw [readDefault_withPolicy]
    cases hdefault : readDefault ctx nullDefault with
    | error _ => rfl
    | ok ctx' =>
      have hobjectless := objectless_of_readDefault hdefault (objectless_of_readContext hctx)
      exact answer_withPolicy e hobjectless _

/-- An answer is plain data, and in it no host object would be written. -/
theorem plain_of_evaluate {nullDefault : Option String} {json : Json}
    (h : evaluate task nullDefault = .ok json) :
    ∃ v : Value, v.Plain ∧ json = v.toJson ∧ ∀ handle, json = v.toJsonWith handle := by
  rw [evaluate_eq] at h
  obtain ⟨e, -, h⟩ := bind_eq_ok.1 h
  obtain ⟨ctx, hctx, h⟩ := bind_eq_ok.1 h
  obtain ⟨ctx', hdefault, h⟩ := bind_eq_ok.1 h
  have hobjectless := objectless_of_readDefault hdefault (objectless_of_readContext hctx)
  have hvalue := (e.indifferent_evaluate noClasses ctx'.policy hobjectless hobjectless.root
    (World.start ())).2.2.1
  unfold answer at h
  split at h
  · next v hv =>
    cases h
    have hplain := hvalue v hv
    refine ⟨v, hplain, rfl, fun handle => ?_⟩
    rw [← Value.toJsonWith_display v]
    exact Value.toJsonWith_of_plain _ handle hplain
  · cases h

/-- The fragment, or the routine around it, and the hint. -/
def written (e : Expr) (routine : Option String) (ctx : Context Unit) :
    Except CommandError (String × Option TypeHint) :=
  match e.generateFromRoot noClasses ⟨ctx, World.start ()⟩ with
  | (.ok fragment, after) =>
    let hint := after.context.currentType
    match routine with
    | some name => .ok (Routine.text name fragment.render hint, hint)
    | none => .ok (fragment.render, hint)
  | (.error cause, _) => .error (.generation cause)

theorem written_withPolicy (e : Expr) (routine : Option String) (hctx : ctx.Objectless)
    (P : Policy Unit) : written e routine (ctx.withPolicy P) = written e routine ctx := by
  have h := (e.indifferent_generateFromRoot noClasses hctx ⟨ctx, World.start ()⟩ rfl).1 P
  change e.generateFromRoot noClasses ⟨ctx.withPolicy P, World.start ()⟩ = _ at h
  unfold written
  rw [h]
  rcases e.generateFromRoot noClasses ⟨ctx, World.start ()⟩ with ⟨_ | fragment, after⟩
  · rfl
  · cases routine <;> rfl

theorem generate_allowAll (task : Task) (routine : Option String) (allowAll : Bool) :
    generate { task with allowAll } routine = generate task routine := by
  change (readExpr task.expression >>= fun e => readContext _ >>= written e routine) =
    (readExpr task.expression >>= fun e => readContext task >>= written e routine)
  refine bind_congr fun e => ?_
  rw [readContext_allowAll]
  cases hctx : readContext task with
  | error _ => rfl
  | ok ctx => exact written_withPolicy e routine (objectless_of_readContext hctx) _

end Command

open Command in
/-- Evaluation of plain data stays in plain data, fails only as data can fail and does the same
under every policy, which it never asks; null handlers see the bindings only, so they do not ask for
it either. So the switch for private members changes the answer of no command, and no handle of a
host object gets into one. -/
theorem plain_data_never_meets_policy :
    (∀ {σ : Type} (classes : Registry σ) (ctx : Context σ), ctx.Objectless →
      ∀ (e : Expr) (here : Value), here.Plain → ∀ w : World σ,
        Yields Value.Plain (e.evaluate classes ctx here w).1 ∧
        w.Remarks (e.evaluate classes ctx here w).2 ∧
        ∀ P : Policy σ,
          e.evaluate classes (ctx.withPolicy P) here w = e.evaluate classes ctx here w) ∧
    ∀ (task : Task) (nullDefault routine : Option String),
      evaluate { task with allowAll := true } nullDefault =
        evaluate { task with allowAll := false } nullDefault ∧
      generate { task with allowAll := true } routine =
        generate { task with allowAll := false } routine ∧
      ∀ json, evaluate task nullDefault = .ok json →
        ∃ v : Value, v.Plain ∧ json = v.toJson ∧ ∀ handle, json = v.toJsonWith handle := by
  constructor
  · intro σ classes ctx hctx e here hhere w
    have h (P : Policy σ) := e.indifferent_evaluate classes P hctx hhere w
    obtain ⟨-, hremarks, hplain, hdata⟩ := h ctx.policy
    refine ⟨?_, hremarks, fun P => (h P).1⟩
    cases hrun : (e.evaluate classes ctx here w).1 with
    | ok v => exact hplain v hrun
    | error err => exact hdata err hrun
  · intro task nullDefault routine
    refine ⟨?_, ?_, fun json => plain_of_evaluate⟩
    · exact (evaluate_allowAll task _ true).trans (evaluate_allowAll task _ false).symm
    · exact (generate_allowAll task _ true).trans (generate_allowAll task _ false).symm

/-- An empty map, and seven for every null. -/
def Context.sevenForNull : Context Unit :=
  { Context.new (.map .nil) with nulls := ⟨some (.constant (.integer 7)), Dict.empty⟩ }

theorem plain_data_never_meets_policy_of_missing_entry :
    Context.sevenForNull.Objectless ∧
    ((Expr.property "limit").evaluate Command.noClasses
      (Context.sevenForNull.withPolicy (VisibilityPolicy.all true).toPolicy) (.map .nil)
      (World.start ())).1 = .ok (.integer 7) ∧
    ∃ v : Value, v.Plain ∧ Json.boolean true = v.toJson := by
  have hctx : Context.sevenForNull.Objectless :=
    (Context.objectless_new rfl).withDefault rfl
  obtain ⟨hevaluation, hcommands⟩ := plain_data_never_meets_policy
  refine ⟨hctx, ?_, ?_⟩
  · rw [(hevaluation Command.noClasses _ hctx (.property "limit") (.map .nil) rfl _).2.2]
    rfl
  · have hanswer : Command.evaluate ⟨"\x7b\"not\":\"root\"\x7d", some "null", [], false⟩ none =
        .ok (.boolean true) := by rfl
    obtain ⟨v, hplain, hjson, -⟩ := (hcommands _ none none).2.2 _ hanswer
    exact ⟨v, hplain, hjson⟩

end ObjectGraph
