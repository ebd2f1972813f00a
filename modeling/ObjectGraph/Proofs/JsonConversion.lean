import ObjectGraph.Proofs.PlainCommands

/-!
# Values to JSON and back

A value comes back from JSON unchanged exactly when JSON can express all of it: no host object
and no double that is not finite occurs in it. JSON comes back from a value unchanged exactly when
no whole number in it is above the integer range. So the root is read and written again as it was.
-/
namespace ObjectGraph

theorem Entries.cons_eq_cons {α : Type} {bound : Option String} {key : String} {v v' : α}
    {above : Above bound key} {rest rest' : Entries α (some key)} :
    cons key v above rest = cons key v' above rest' ↔ v = v' ∧ rest = rest' := by
  simp

namespace Value

mutual
/-- No NaN and no infinity at any depth. -/
def isFinite : Value → Bool
  | float x => x.isFinite
  | array items => finiteItems items
  | map entries => finiteEntries entries
  | _ => true
termination_by structural v => v

def finiteItems : List Value → Bool
  | [] => true
  | item :: items => item.isFinite && finiteItems items
termination_by structural items => items

def finiteEntries {bound : Option String} : Entries Value bound → Bool
  | .nil => true
  | .cons _ value _ rest => value.isFinite && finiteEntries rest
termination_by structural entries => entries
end

theorem floatJson_of_finite {x : Binary64} (h : x.isFinite = true) :
    floatJson x = .number (.float x h) := dif_pos h

theorem floatJson_of_not_finite {x : Binary64} (h : ¬ x.isFinite = true) :
    floatJson x = .null := dif_neg h

theorem ofJson_floatJson (x : Binary64) :
    ofJson (floatJson x) = float x ↔ x.isFinite = true := by
  by_cases h : x.isFinite = true
  · rw [floatJson_of_finite h]
    exact iff_of_true rfl h
  · rw [floatJson_of_not_finite h]
    exact iff_of_false nofun h

mutual
theorem ofJson_toJson : ∀ v : Value, ofJson v.toJson = v ↔ v.Plain ∧ v.isFinite = true
  | null => iff_of_true rfl ⟨rfl, rfl⟩
  | boolean _ => iff_of_true rfl ⟨rfl, rfl⟩
  | integer _ => iff_of_true rfl ⟨rfl, rfl⟩
  | float x => (ofJson_floatJson x).trans (and_iff_right rfl).symm
  | string _ => iff_of_true rfl ⟨rfl, rfl⟩
  | array items => by
    rw [toJson, ofJson, array.injEq]
    exact ofJsonItems_toJsonItems items
  | map entries => by
    rw [toJson, ofJson, map.injEq]
    exact ofJsonMembers_toJsonEntries entries
  | object _ => iff_of_false nofun nofun
termination_by structural v => v

theorem ofJsonItems_toJsonItems : ∀ items : List Value,
    ofJsonItems (toJsonItems items) = items ↔
      plainItems items = true ∧ finiteItems items = true
  | [] => iff_of_true rfl ⟨rfl, rfl⟩
  | item :: items => by
    rw [toJsonItems, ofJsonItems, List.cons.injEq, ofJson_toJson item,
      ofJsonItems_toJsonItems items, plainItems, finiteItems, Bool.and_eq_true, Bool.and_eq_true]
    exact and_and_and_comm
termination_by structural items => items

theorem ofJsonMembers_toJsonEntries {bound : Option String} : ∀ entries : Entries Value bound,
    ofJsonMembers (toJsonEntries entries) = entries ↔
      plainEntries entries = true ∧ finiteEntries entries = true
  | .nil => iff_of_true rfl ⟨rfl, rfl⟩
  | .cons key value _ rest => by
    rw [toJsonEntries, ofJsonMembers, Entries.cons_eq_cons, ofJson_toJson value,
      ofJsonMembers_toJsonEntries rest, plainEntries, finiteEntries, Bool.and_eq_true,
      Bool.and_eq_true]
    exact and_and_and_comm
termination_by structural entries => entries
end

end Value

namespace Json

/-- Not a whole number above the integer range. -/
def Number.inRange : Number → Bool
  | large _ _ => false
  | _ => true

mutual
/-- No whole number above the integer range at any depth. -/
def inRange : Json → Bool
  | number n => n.inRange
  | array items => itemsInRange items
  | object members => membersInRange members
  | _ => true
termination_by structural json => json

def itemsInRange : List Json → Bool
  | [] => true
  | item :: items => item.inRange && itemsInRange items
termination_by structural items => items

def membersInRange {bound : Option String} : Entries Json bound → Bool
  | .nil => true
  | .cons _ value _ rest => value.inRange && membersInRange rest
termination_by structural members => members
end

open Value

theorem toJson_ofNumber (n : Number) :
    (ofNumber n).toJson = .number n ↔ n.inRange = true := by
  cases n with
  | integer n => exact iff_of_true rfl rfl
  | float x h => exact iff_of_true (floatJson_of_finite h) rfl
  | large n _ =>
    refine iff_of_false ?_ nofun
    change floatJson (Binary64.ofNat n.toNat) ≠ _
    unfold floatJson
    split <;> nofun

mutual
theorem toJson_ofJson : ∀ json : Json, (ofJson json).toJson = json ↔ json.inRange = true
  | .null => iff_of_true rfl rfl
  | .boolean _ => iff_of_true rfl rfl
  | .number n => toJson_ofNumber n
  | .string _ => iff_of_true rfl rfl
  | .array items => by
    rw [ofJson, toJson, array.injEq]
    exact toJsonItems_ofJsonItems items
  | .object members => by
    rw [ofJson, toJson, object.injEq]
    exact toJsonEntries_ofJsonMembers members
termination_by structural json => json

theorem toJsonItems_ofJsonItems : ∀ items : List Json,
    toJsonItems (ofJsonItems items) = items ↔ itemsInRange items = true
  | [] => iff_of_true rfl rfl
  | item :: items => by
    rw [ofJsonItems, toJsonItems, List.cons.injEq, toJson_ofJson item,
      toJsonItems_ofJsonItems items, itemsInRange, Bool.and_eq_true]
termination_by structural items => items

theorem toJsonEntries_ofJsonMembers {bound : Option String} : ∀ members : Entries Json bound,
    toJsonEntries (ofJsonMembers members) = members ↔ membersInRange members = true
  | .nil => iff_of_true rfl rfl
  | .cons key value _ rest => by
    rw [ofJsonMembers, toJsonEntries, Entries.cons_eq_cons, toJson_ofJson value,
      toJsonEntries_ofJsonMembers rest, membersInRange, Bool.and_eq_true]
termination_by structural members => members
end

end Json

/-! ## The root of a command -/

namespace Command

variable {ctx ctx' : Context Unit} {task : Task}

theorem root_of_readBindings : ∀ (bindings : List String) (ctx : Context Unit),
    readBindings bindings ctx = .ok ctx' → ctx'.root = ctx.root
  | [], _, h => by
    cases h
    rfl
  | _ :: bindings, ctx, h => by
    obtain ⟨⟨name, v⟩, -, hrest⟩ := bind_eq_ok.1 h
    exact root_of_readBindings bindings (ctx.setVariable name v) hrest

theorem readRoot_of_readContext (h : readContext task = .ok ctx) :
    readRoot task.input = .ok ctx.root := by
  rw [readContext_eq] at h
  obtain ⟨root, hroot, hbindings⟩ := bind_eq_ok.1 h
  rw [hroot, root_of_readBindings _ _ hbindings]
  rfl

theorem root_of_readDefault {nullDefault : Option String}
    (h : readDefault ctx nullDefault = .ok ctx') : ctx'.root = ctx.root := by
  cases nullDefault with
  | none =>
    cases h
    rfl
  | some text =>
    obtain ⟨substitute, -, hctx'⟩ := bind_eq_ok.1 h
    cases hctx'
    rfl

/-- The root is the answer, whatever the variables and the substitute for null. -/
theorem evaluate_root {nullDefault : Option String} {text : String} {json : Json}
    (hexpr : readExpr task.expression = .ok .root) (hinput : task.input = some text)
    (hread : Json.read? text = some json) (hctx : readContext task = .ok ctx)
    (hdefault : readDefault ctx nullDefault = .ok ctx') :
    evaluate task nullDefault = .ok (Value.ofJson json).toJson := by
  have hroot := readRoot_of_readContext hctx
  rw [hinput, readRoot, readValue, hread] at hroot
  have hvalue := Except.ok.inj hroot
  rw [evaluate_eq, hexpr]
  change (readContext task >>= fun ctx => readDefault ctx nullDefault >>= answer .root) = _
  rw [hctx]
  change (readDefault ctx nullDefault >>= answer .root) = _
  rw [hdefault, hvalue, ← root_of_readDefault hdefault]
  rfl

end Command

open Command in
/-- Between JSON and values nothing is lost but what the other side cannot express. So the root of
a command, if no whole number in it is above the integer range, is answered as it was read. -/
theorem json_and_values_convert_without_loss :
    (∀ v : Value, Value.ofJson v.toJson = v ↔ v.Plain ∧ v.isFinite = true) ∧
    (∀ json : Json, (Value.ofJson json).toJson = json ↔ json.inRange = true) ∧
    ∀ (task : Task) (nullDefault : Option String) (text : String) (json : Json)
      (ctx ctx' : Context Unit), readExpr task.expression = .ok .root →
        task.input = some text → Json.read? text = some json → json.inRange = true →
        readContext task = .ok ctx → readDefault ctx nullDefault = .ok ctx' →
          evaluate task nullDefault = .ok json := by
  refine ⟨Value.ofJson_toJson, Json.toJson_ofJson, ?_⟩
  intro task nullDefault text json ctx ctx' hexpr hinput hread hrange hctx hdefault
  rw [evaluate_root hexpr hinput hread hctx hdefault, json.toJson_ofJson.2 hrange]

/-- The integer zero beside the double that is zero with a sign, under a key. -/
def Json.bothZeros : Json :=
  .object (.cons "a" (.array [.number (.integer 0), .number (.float ⟨0x8000000000000000⟩ rfl),
    .null]) (above_none "a") .nil)

/-- The root against both zeros, with a variable. -/
def Command.bothZeros : Command.Task where
  expression := "\"root\""
  input := some "\x7b\"a\": [0, -0.0, null]\x7d"
  bindings := ["n=1"]
  allowAll := false

open Command in
theorem both_zeros_convert_without_loss :
    (Value.ofJson Json.bothZeros).toJson = Json.bothZeros ∧
    Value.ofJson (Value.ofJson Json.bothZeros).toJson = Value.ofJson Json.bothZeros ∧
    evaluate Command.bothZeros (some "7") = .ok Json.bothZeros := by
  obtain ⟨hvalues, hjson, hroot⟩ := json_and_values_convert_without_loss
  refine ⟨(hjson _).2 rfl, (hvalues _).2 ⟨rfl, rfl⟩, ?_⟩
  have htree : Json.Tree.read? "\x7b\"a\": [0, -0.0, null]\x7d" = some (.object
      (.cons ['a'] (.array [.numeral ['0'], .numeral ['-', '0', '.', '0'], .null]) .nil)) := rfl
  have hread : Json.read? "\x7b\"a\": [0, -0.0, null]\x7d" = some Json.bothZeros := by
    rw [Json.read?, htree]
    rfl
  have hinput : readRoot Command.bothZeros.input = .ok (Value.ofJson Json.bothZeros) := by
    rw [Command.bothZeros, readRoot, readValue, hread]
  have hcontext : readContext Command.bothZeros =
      .ok (((Context.new (Value.ofJson Json.bothZeros)).withPolicy
        (VisibilityPolicy.all false).toPolicy).setVariable "n" (.integer 1)) := by
    rw [readContext_eq, hinput]
    rfl
  have hdefault {ctx : Context Unit} : readDefault ctx (some "7") =
      .ok { ctx with nulls := { ctx.nulls with fallback := some (.constant (.integer 7)) } } := rfl
  exact hroot Command.bothZeros (some "7") _ Json.bothZeros _ _ rfl rfl hread rfl hcontext hdefault

end ObjectGraph
