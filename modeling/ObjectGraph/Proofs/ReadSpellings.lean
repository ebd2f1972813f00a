import ObjectGraph.Proofs.GrantIndependence
import ObjectGraph.Proofs.Passages

/-!
# Names, keys and calls of `get`

An entry of a map is read by its name, by an index and by `get`, an item of an array by an index
and by `get`, and a property of a host object without an indexer is read and written by its name
and by an index. Where null handlers put fixed values in the place of null, these spellings come
to the same result, leave the same state and use policy and host code alike: they differ only in
what the trail remarks about navigation.
-/
namespace ObjectGraph

variable {σ ε δ α : Type}

/-! ## Runs that only remarks tell apart -/

/-- Two worlds that differ in remarks about navigation only. -/
structure World.Agree (w w' : World σ) : Prop where
  shared : w'.toShared = w.toShared
  gateEvents : w'.gateEvents = w.gateEvents

/-- The same result, and worlds that agree. -/
structure SameOutcome (r r' : Except EvalError α × World σ) : Prop where
  result : r'.1 = r.1
  world : r.2.Agree r'.2

namespace World

theorem gateEvents_record_of_gate {event : Event} (h : event.isRemark = false) (w : World σ) :
    (w.record event).gateEvents = w.gateEvents ++ [event] := by
  simp [gateEvents, record, h]

namespace Agree

variable {w w' w'' : World σ}

theorem refl (w : World σ) : w.Agree w := ⟨rfl, rfl⟩

theorem symm (h : w.Agree w') : w'.Agree w := ⟨h.shared.symm, h.gateEvents.symm⟩

theorem trans (h : w.Agree w') (h' : w'.Agree w'') : w.Agree w'' :=
  ⟨h'.shared.trans h.shared, h'.gateEvents.trans h.gateEvents⟩

theorem remark {event : Event} (h : event.isRemark = true) (w : World σ) :
    w.Agree (w.record event) := ⟨rfl, w.gateEvents_record h⟩

/-- Whatever the event, the worlds still agree when both are told of it. -/
theorem record (h : w.Agree w') (event : Event) : (w.record event).Agree (w'.record event) := by
  refine ⟨h.shared, ?_⟩
  cases hevent : event.isRemark with
  | true => rw [gateEvents_record hevent, gateEvents_record hevent, h.gateEvents]
  | false =>
    rw [gateEvents_record_of_gate hevent, gateEvents_record_of_gate hevent, h.gateEvents]

theorem withShared (h : w.Agree w') (s : Shared σ) :
    World.Agree { w with toShared := s } { w' with toShared := s } := ⟨rfl, h.gateEvents⟩

end Agree
end World

/-! ## The gate does not read the trail -/

open ObjectGraph.Action (Respects)

theorem Action.Respects.ofExcept {S : Type} {T : S → S → Prop} (result : Except ε α) :
    Respects T (Action.ofExcept result) :=
  fun s s' h => ⟨result, s, s', h, rfl, rfl⟩

theorem Action.Respects.attempt {S : Type} {T : S → S → Prop} {a : Action S ε α}
    (h : Respects T a) : Respects T (Action.attempt a : Action S δ (Except ε α)) := by
  intro s s' hs
  obtain ⟨r, t, t', ht, hr, hr'⟩ := h hs
  refine ⟨.ok r, t, t', ht, ?_, ?_⟩
  · rw [attempt_apply, hr]
  · rw [attempt_apply, hr']

section

variable (P : Policy σ) (b : Bindings) (access : Access)

theorem respects_onShared (f : Shared σ → α × Shared σ) (event : α → Shared σ → Event) :
    Respects World.Agree (World.onShared f event : Run σ ε α) := by
  intro w w' h
  refine ⟨_, _, _, ?_, rfl, by rw [World.onShared, h.shared]⟩
  exact (h.withShared (f w.toShared).2).record (event (f w.toShared).1 (f w.toShared).2)

theorem respects_flagged (m : Member) :
    Respects World.Agree (flagged m : Run σ ε Bool) := by
  intro w w' h
  refine ⟨.ok (w.grants m).flag, w, w', h, rfl, ?_⟩
  rw [flagged, Action.step_apply, h.shared]

theorem respects_perform (attempt : Attempt σ α) :
    Respects World.Agree (attempt.perform access) := by
  intro w w' h
  refine ⟨_, _, _, ?_, attempt.perform_apply access w, by
    rw [attempt.perform_apply, h.shared]⟩
  exact (h.withShared { w.toShared with host := attempt.hostAfter w.host }).record
    (.reached access attempt.call (attempt.endingAt w.host))

theorem respects_enter : Respects World.Agree (Scope.enter P b access : Run σ ε Scope) :=
  ((respects_onShared _ _).bind fun _ => .pure _).bind fun _ => .pure _

theorem respects_release (scope : Scope) : Respects World.Agree (scope.release P b) := by
  have hrestore : ∀ s : Scope, Respects World.Agree
      (s.restore P b : Run σ AccessError (Except AccessError Unit × Scope)) := by
    intro s
    unfold Scope.restore
    split
    · exact ((respects_onShared _ _).bind fun _ => .ofExcept _).attempt.bind fun _ => .pure _
    · exact .pure _
  exact (hrestore scope).bind fun _ =>
    ((hrestore _).bind fun _ => .pure ()).bind fun _ => .ofExcept _

theorem respects_elevated (attempt : Attempt σ α) :
    Respects World.Agree (elevated P b access attempt) := by
  refine (respects_onShared _ _).bind fun allowed => ?_
  split
  · refine (respects_flagged access.member).bind fun flag => ?_
    split
    · exact respects_perform access attempt
    · refine (respects_enter P b access).bind fun scope =>
        (respects_flagged access.member).bind fun opened => ?_
      have hattempt : Respects World.Agree
          (if opened || scope.isElevated then attempt.perform access
            else Action.fail access.denied) := by
        split
        · exact respects_perform access attempt
        · exact .fail _
      exact hattempt.attempt.bind fun _ =>
        (respects_release P b scope).attempt.bind fun _ => .ofExcept _
  · exact .fail _

end

/-! ## Fixed values in the place of null -/

/-- Handlers that put one value in the place of every null, each a value of its own. -/
def NullHandlers.Constant (nulls : NullHandlers σ) : Prop :=
  ∀ {typeName : String} {slot : Option String} {h : NullHandler σ},
    nulls.handler? typeName = some (slot, h) → ∃ value, h = .constant value

/-- What is put in the place of a null that comes from a target of that type. -/
def NullHandlers.Fills (nulls : NullHandlers σ) (typeName : String) (value : Value) : Prop :=
  (nulls.handler? typeName = Option.none ∧ value = .null) ∨
    ∃ slot, nulls.handler? typeName = some (slot, .constant value)

/-- The value with something else in the place of null. -/
def Value.orIfNull : Value → Value → Value
  | null, substitute => substitute
  | v, _ => v

theorem Value.orIfNull_of_isNull {v : Value} (h : v.isNull = true) (substitute : Value) :
    v.orIfNull substitute = substitute := by
  cases v with
  | null => rfl
  | _ => cases h

theorem Value.orIfNull_of_not_isNull {v : Value} (h : v.isNull = false) (substitute : Value) :
    v.orIfNull substitute = v := by
  cases v with
  | null => cases h
  | _ => rfl

namespace NullHandlers

variable {nulls : NullHandlers σ}

theorem Constant.exists_fills (h : nulls.Constant) (typeName : String) :
    ∃ value, nulls.Fills typeName value := by
  cases hfound : nulls.handler? typeName with
  | none => exact ⟨.null, .inl ⟨hfound, rfl⟩⟩
  | some found =>
    obtain ⟨value, hvalue⟩ := h hfound
    exact ⟨value, .inr ⟨found.1, by rw [hfound, ← hvalue]⟩⟩

theorem Fills.fill {step : Step} {value : Value} (h : nulls.Fills step.target.typeName value)
    (b : Bindings) (w : World σ) :
    ∃ w', (nulls.fill b step : Run σ ε Value) w = (.ok value, w') ∧ w.Agree w' := by
  obtain ⟨hnone, rfl⟩ | ⟨slot, hsome⟩ := h
  · exact ⟨w, by simp only [NullHandlers.fill, hnone], .refl w⟩
  · refine ⟨w.record (.substituted slot step value), ?_, .remark rfl w⟩
    simp only [NullHandlers.fill, hsome]
    cases step <;> rfl

end NullHandlers

namespace Navigation

variable {classes : Registry σ} {ctx : Context σ} {substitute : Value}

theorem exists_navigate_eq (step : Step)
    (hfills : ctx.nulls.Fills step.target.typeName substitute) (run : Run σ EvalError Value)
    (w : World σ) :
    ∃ w', navigate ctx step run w = ((run w).1.map (·.orIfNull substitute), w') ∧
      (run w).2.Agree w' := by
  rcases hrun : run w with ⟨r, u⟩
  have hrecorded : World.recording (.navigated step) run w =
      (r, u.record (.navigated step r)) := by
    rw [World.recording, hrun]
  have hremark : u.Agree (u.record (.navigated step r)) := .remark rfl u
  cases r with
  | error e =>
    refine ⟨_, ?_, hremark⟩
    rw [navigate, Action.bind_of_error hrecorded]
    rfl
  | ok v =>
    rw [navigate, Action.bind_of_ok hrecorded]
    cases hnull : v.isNull with
    | true =>
      obtain ⟨w', hfill, hagree⟩ :=
        hfills.fill ctx.toBindings (u.record (.navigated step (.ok v)))
      refine ⟨w', ?_, hremark.trans hagree⟩
      rw [if_pos rfl, hfill]
      simp only [Except.map, Value.orIfNull_of_isNull hnull]
    | false =>
      refine ⟨_, ?_, hremark⟩
      rw [if_neg Bool.false_ne_true]
      simp only [Except.map, Value.orIfNull_of_not_isNull hnull]
      rfl

/-- A step of another spelling that comes to the same on the same target. -/
theorem sameOutcome_navigate (step step' : Step) (htarget : step'.target = step.target)
    (hfills : ctx.nulls.Fills step.target.typeName substitute) (run : Run σ EvalError Value)
    (w : World σ) : SameOutcome (navigate ctx step run w) (navigate ctx step' run w) := by
  obtain ⟨u, hu, hagree⟩ := exists_navigate_eq step hfills run w
  obtain ⟨u', hu', hagree'⟩ := exists_navigate_eq step' (htarget ▸ hfills) run w
  rw [hu, hu']
  exact ⟨rfl, hagree.symm.trans hagree'⟩

/-! ## Maps and arrays -/

/-- The three spellings of an entry. -/
theorem entry_spellings (hfills : ctx.nulls.Fills "map" substitute) (entries : Dict Value)
    (key : String) (w : World σ) :
    let read := getProperty classes ctx (.map entries) key w
    read.1 = .ok (((entries.find? key).getD .null).orIfNull substitute) ∧ w.Agree read.2 ∧
      SameOutcome read (getIndex classes ctx (.map entries) (.string key) w) ∧
      SameOutcome read (callMethod classes ctx (.map entries) "get" [.string key] w) := by
  intro read
  let entry : Run σ EvalError Value := pure (Builtin.entryAt entries key)
  have hread : read = navigate ctx (.property (.map entries) (.name key)) entry w := rfl
  obtain ⟨u, hu, hagree⟩ := exists_navigate_eq
    (.property (.map entries) (.name key)) hfills entry w
  refine ⟨?_, ?_, ?_, ?_⟩
  · rw [hread, hu]
    rfl
  · rw [hread, hu]
    exact hagree
  · exact sameOutcome_navigate (.property (.map entries) (.name key))
      (.property (.map entries) (.index (.string key))) rfl hfills entry w
  · exact sameOutcome_navigate (.property (.map entries) (.name key))
      (.method (.map entries) "get" [.string key]) rfl hfills entry w

end Navigation

theorem Builtin.itemAt_of_lt {items : List Value} {index : Int64} {n : Nat} (h : n < items.length)
    (hindex : index.toInt = n) : itemAt items index = .ok items[n] := by
  have hpos : ¬ index.toInt < 0 := by omega
  have hitem : items[index.toInt.toNat]? = some items[n] := by
    rw [hindex, Int.toNat_natCast, List.getElem?_eq_getElem h]
  simp only [itemAt, if_neg hpos, hitem]

theorem Builtin.itemAt_of_outside {items : List Value} {index : Int64}
    (h : index.toInt < 0 ∨ (items.length : Int) ≤ index.toInt) :
    itemAt items index = .error (.indexOutOfBounds index items.length) := by
  have hnone : (if index.toInt < 0 then none else items[index.toInt.toNat]?) = none := by
    split
    · rfl
    · exact List.getElem?_eq_none (by omega)
  simp only [itemAt, hnone]

namespace Navigation

variable {classes : Registry σ} {ctx : Context σ} {substitute : Value}

/-- The two spellings of an item. -/
theorem item_spellings (hfills : ctx.nulls.Fills "array" substitute) (items : List Value)
    (index : Int64) (w : World σ) :
    let read := getIndex classes ctx (.array items) (.integer index) w
    (∀ (n : Nat) (_ : n < items.length), index.toInt = n →
        read.1 = .ok (items[n].orIfNull substitute)) ∧
      (∀ e, read.1 = .error e ↔ e = .indexOutOfBounds index items.length ∧
        (index.toInt < 0 ∨ (items.length : Int) ≤ index.toInt)) ∧
      w.Agree read.2 ∧
      SameOutcome read (callMethod classes ctx (.array items) "get" [.integer index] w) := by
  intro read
  let item : Run σ EvalError Value := Action.ofExcept (Builtin.itemAt items index)
  have hread : read = navigate ctx (.property (.array items) (.index (.integer index))) item w :=
    rfl
  obtain ⟨u, hu, hagree⟩ := exists_navigate_eq
    (.property (.array items) (.index (.integer index))) hfills item w
  have hresult : read.1 = (Builtin.itemAt items index).map (·.orIfNull substitute) := by
    rw [hread, hu]
    rfl
  have hinside (n : Nat) (h : n < items.length) (hindex : index.toInt = n) :
      read.1 = .ok (items[n].orIfNull substitute) := by
    rw [hresult, Builtin.itemAt_of_lt h hindex]
    rfl
  refine ⟨hinside, fun e => ?_, ?_, ?_⟩
  · by_cases h : index.toInt < 0 ∨ (items.length : Int) ≤ index.toInt
    · rw [hresult, Builtin.itemAt_of_outside h]
      simp [Except.map, h, eq_comm]
    · have hindex : index.toInt = (index.toInt.toNat : Nat) := by omega
      rw [hinside index.toInt.toNat (by omega) hindex]
      simp [h]
  · rw [hread, hu]
    exact hagree
  · exact sameOutcome_navigate (.property (.array items) (.index (.integer index)))
      (.method (.array items) "get" [.integer index]) rfl hfills item w

/-! ## Host objects without an indexer -/

variable {o : ObjectRef}

theorem property_spellings (hfills : ctx.nulls.Fills o.cls.name substitute)
    (hindexer : (classes o.cls).indexer = none) (name : String) (w : World σ) :
    SameOutcome (getProperty classes ctx (.object o) name w)
      (getIndex classes ctx (.object o) (.string name) w) := by
  have hindex : getIndex classes ctx (.object o) (.string name) =
      navigate ctx (.property (.object o) (.index (.string name)))
        (propertyOf classes ctx (.object o) name) := by
    simp only [getIndex, indexOf, hindexer, propertyOf]
  rw [hindex]
  exact sameOutcome_navigate (.property (.object o) (.name name))
    (.property (.object o) (.index (.string name))) rfl hfills _ w

theorem respects_writeProperty (name : String) (value : Value) :
    Respects World.Agree (writeProperty classes ctx (.object o) name value) := by
  simp only [writeProperty, reach]
  split
  · exact respects_elevated _ _ _ _
  · split
    · exact (respects_elevated _ _ _ _).bind fun _ => .pure ()
    · exact .fail _

theorem assignment_spellings (hindexer : (classes o.cls).indexer = none) (name : String)
    (value : Value) (w : World σ) :
    SameOutcome (setProperty classes ctx (.object o) name value w)
      (setIndex classes ctx (.object o) (.string name) value w) := by
  have hindex : setIndex classes ctx (.object o) (.string name) value w =
      writeProperty classes ctx (.object o) name value
        (w.record (.assigning (.object o) (.index (.string name)) value)) := by
    change writeIndex classes ctx (.object o) (.string name) value _ = _
    simp only [writeIndex, hindexer]
  have hagree : (w.record (.assigning (.object o) (.name name) value)).Agree
      (w.record (.assigning (.object o) (.index (.string name)) value)) :=
    (World.Agree.remark rfl w).symm.trans (.remark rfl w)
  obtain ⟨hresult, hworld⟩ := (respects_writeProperty name value).outcome hagree
  rw [hindex]
  exact ⟨hresult, hworld⟩

end Navigation

open Navigation in
/-- Where null handlers put fixed values in the place of null, an entry of a map is the same by its
name, as an index and by `get`, and an item of an array as an index and by `get`; an index is out
of bounds exactly when it is negative or not less than the length. A property of a host object
without an indexer is read and written by its name and as an index alike, errors and uses of the
policy and of host code included. -/
theorem spellings_come_to_the_same (classes : Registry σ) (ctx : Context σ)
    (hnulls : ctx.nulls.Constant) (w : World σ) :
    (∃ substitute, ctx.nulls.Fills "map" substitute ∧ ∀ (entries : Dict Value) (key : String),
      let read := getProperty classes ctx (.map entries) key w
      read.1 = .ok (((entries.find? key).getD .null).orIfNull substitute) ∧ w.Agree read.2 ∧
        SameOutcome read (getIndex classes ctx (.map entries) (.string key) w) ∧
        SameOutcome read (callMethod classes ctx (.map entries) "get" [.string key] w)) ∧
    (∃ substitute, ctx.nulls.Fills "array" substitute ∧ ∀ (items : List Value) (index : Int64),
      let read := getIndex classes ctx (.array items) (.integer index) w
      (∀ (n : Nat) (_ : n < items.length), index.toInt = n →
          read.1 = .ok (items[n].orIfNull substitute)) ∧
        (∀ e, read.1 = .error e ↔ e = .indexOutOfBounds index items.length ∧
          (index.toInt < 0 ∨ (items.length : Int) ≤ index.toInt)) ∧
        w.Agree read.2 ∧
        SameOutcome read (callMethod classes ctx (.array items) "get" [.integer index] w)) ∧
    ∀ o : ObjectRef, (classes o.cls).indexer = none → ∀ name : String,
      SameOutcome (getProperty classes ctx (.object o) name w)
        (getIndex classes ctx (.object o) (.string name) w) ∧
      ∀ value, SameOutcome (setProperty classes ctx (.object o) name value w)
        (setIndex classes ctx (.object o) (.string name) value w) := by
  obtain ⟨inMap, hmap⟩ := hnulls.exists_fills "map"
  obtain ⟨inArray, harray⟩ := hnulls.exists_fills "array"
  refine ⟨⟨inMap, hmap, fun entries key => entry_spellings hmap entries key w⟩,
    ⟨inArray, harray, fun items index => item_spellings harray items index w⟩, ?_⟩
  intro o hindexer name
  obtain ⟨substitute, hfills⟩ := hnulls.exists_fills o.cls.name
  exact ⟨property_spellings hfills hindexer name w,
    fun value => assignment_spellings hindexer name value w⟩

open Navigation in
/-- With seven in the place of null: a missing entry, an item before the first, and a field that is
denied. -/
theorem spellings_of_denied_field :
    let vault : ClassTable Int64 :=
      .build [.field "code" .isPrivate fun _ n => (.ok (.integer n), n)]
    let classes : Registry Int64 := fun _ => vault
    let ctx : Context Int64 :=
      { Context.new .null with nulls := ⟨some (.constant (.integer 7)), Dict.empty⟩ }
    let o : ObjectRef := ⟨⟨0, "Vault"⟩, "v"⟩
    let w := World.start 42
    ctx.nulls.Constant ∧
      (callMethod classes ctx (.map .nil) "get" [.string "limit"] w).1 = .ok (.integer 7) ∧
      (callMethod classes ctx (.array [.null]) "get" [.integer (-1)] w).1 =
        .error (.indexOutOfBounds (-1) 1) ∧
      (getIndex classes ctx (.object o) (.string "code") w).1 =
        .error (.inaccessible "Vault" "code") := by
  intro vault classes ctx o w
  have hnulls : ctx.nulls.Constant := by
    rintro _ _ _ ⟨⟩
    exact ⟨.integer 7, rfl⟩
  obtain ⟨⟨_, -, hentry⟩, ⟨_, -, hitem⟩, hobject⟩ := spellings_come_to_the_same classes ctx hnulls w
  obtain ⟨-, houtside, -, hget⟩ := hitem [.null] (-1)
  refine ⟨hnulls, (hentry .nil "limit").2.2.2.result.trans rfl, ?_,
    (hobject o rfl "code").1.result.trans rfl⟩
  rw [hget.result]
  exact (houtside _).2 ⟨rfl, .inl (by decide)⟩

end ObjectGraph
