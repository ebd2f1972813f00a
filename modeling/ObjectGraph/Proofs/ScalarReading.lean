import ObjectGraph.Proofs.ExprJson
import ObjectGraph.Proofs.JsonConversion
import ObjectGraph.Proofs.ReadingInPlace

/-!
# Scalars as constants and as input

A literal tries its forms in their order; a value of input data asks a number first for an integer,
then for a double. Both come to the same on every scalar, so that a constant is evaluated to what
the root is when the same text is the input.
-/
namespace ObjectGraph

open Json (Tree Numeral)

/-- A JSON number as it is handed on. A whole number without a sign is unsigned. -/
inductive Quantity
  | signed (n : Int64)
  | unsigned (n : UInt64)
  | float (x : Binary64)

namespace Quantity

def ofNumber : Json.Number → Quantity
  | .integer n => if n < 0 then signed n else unsigned n.toUInt64
  | .large n _ => unsigned n
  | .float x _ => float x

/-- The number as an integer, if it is whole and in the integer range. -/
def asInt64? : Quantity → Option Int64
  | signed n => some n
  | unsigned n => if n.toNat < 0x8000000000000000 then some (Int64.ofNat n.toNat) else none
  | float _ => none

/-- The double nearest to the number. -/
def asDouble : Quantity → Binary64
  | signed n => Binary64.ofRatio (n < 0) n.toInt.natAbs 1
  | unsigned n => Binary64.ofNat n.toNat
  | float x => x

theorem asInt64?_unsigned {n : Int64} (h : 0 ≤ n) : (unsigned n.toUInt64).asInt64? = some n := by
  rw [asInt64?, Int64.toNat_toUInt64_of_le h, if_pos n.toNatClampNeg_lt,
    Int64.ofNat_toNatClampNeg n h]

theorem asInt64?_of_integer (n : Int64) : (ofNumber (.integer n)).asInt64? = some n := by
  rw [ofNumber]
  split_ifs with hnegative
  · rfl
  · exact asInt64?_unsigned (Int64.not_lt.1 hnegative)

theorem asInt64?_of_beyond {n : UInt64} (h : 0x8000000000000000 ≤ n.toNat) :
    (unsigned n).asInt64? = none :=
  if_neg (Nat.not_lt.2 h)

end Quantity

/-- A JSON scalar as it is handed on. -/
inductive Scalar
  | null
  | boolean (b : Bool)
  | number (n : Quantity)
  | string (s : String)

def Scalar.ofTree? : Tree → Option Scalar
  | .null => some null
  | .boolean b => some (boolean b)
  | .numeral chars =>
    (Numeral.ofChars? chars).bind fun n => n.number?.map fun n => number (.ofNumber n)
  | .string body => (Json.decode? body).map string
  | .array _ => none
  | .object _ => none

/-! ## Literals -/

namespace Literal

def ofNull? : Scalar → Option Literal
  | .null => some null
  | _ => none

def ofBoolean? : Scalar → Option Literal
  | .boolean b => some (boolean b)
  | _ => none

def ofInteger? : Scalar → Option Literal
  | .number n => n.asInt64?.map integer
  | _ => none

/-- A whole number is taken for a double too. -/
def ofFloat? : Scalar → Option Literal
  | .number n => some (float n.asDouble)
  | _ => none

def ofString? : Scalar → Option Literal
  | .string s => some (string s)
  | _ => none

/-- The forms of a literal, in the order in which they are tried. -/
def forms : List (Scalar → Option Literal) :=
  [ofNull?, ofBoolean?, ofInteger?, ofFloat?, ofString?]

/-- The first form that takes the scalar. -/
def ofScalar? (scalar : Scalar) : Option Literal := forms.findSome? fun form => form scalar

theorem ofScalar?_of_asInt64? {n : Quantity} {i : Int64} (h : n.asInt64? = some i) :
    ofScalar? (.number n) = some (integer i) := by
  simp [ofScalar?, forms, List.findSome?_cons, ofNull?, ofBoolean?, ofInteger?, h]

theorem ofScalar?_of_not_asInt64? {n : Quantity} (h : n.asInt64? = none) :
    ofScalar? (.number n) = some (float n.asDouble) := by
  simp [ofScalar?, forms, List.findSome?_cons, ofNull?, ofBoolean?, ofInteger?, ofFloat?, h]

theorem ofScalar?_ofNumber (n : Json.Number) :
    ofScalar? (.number (.ofNumber n)) = some (ofNumber n) := by
  cases n with
  | integer n => exact ofScalar?_of_asInt64? (Quantity.asInt64?_of_integer n)
  | large n beyond => exact ofScalar?_of_not_asInt64? (Quantity.asInt64?_of_beyond beyond)
  | float x finite => exact ofScalar?_of_not_asInt64? rfl

/-- A literal is read in the first form that takes it. -/
theorem ofTree?_eq (tree : Tree) : ofTree? tree = (Scalar.ofTree? tree).bind ofScalar? := by
  cases tree with
  | null => rfl
  | boolean b => rfl
  | numeral chars =>
    rw [ofTree?, Scalar.ofTree?]
    cases Numeral.ofChars? chars with
    | none => rfl
    | some numeral =>
      rw [Option.bind_some, Option.bind_some]
      cases numeral.number? with
      | none => rfl
      | some n => exact (ofScalar?_ofNumber n).symm
  | string body =>
    rw [ofTree?, Scalar.ofTree?]
    cases Json.decode? body <;> rfl
  | array items => rfl
  | object members => rfl

end Literal

/-! ## Values -/

namespace Value

/-- A number is an integer before it is a double. -/
def ofScalar : Scalar → Value
  | .null => null
  | .boolean b => boolean b
  | .number n =>
    match n.asInt64? with
    | some i => integer i
    | none => float n.asDouble
  | .string s => string s

theorem ofScalar_ofNumber (n : Json.Number) : ofScalar (.number (.ofNumber n)) = ofNumber n := by
  cases n with
  | integer n => rw [ofScalar, Quantity.asInt64?_of_integer, ofNumber]
  | large n beyond =>
    rw [Quantity.ofNumber, ofScalar, Quantity.asInt64?_of_beyond beyond]
    rfl
  | float x finite => rfl

end Value

def Json.Tree.isScalar : Tree → Bool
  | .array _ => false
  | .object _ => false
  | _ => true

/-- A scalar value asks a number for an integer first. -/
theorem Json.ofTree?_eq (room : Nat) {tree : Tree} (h : tree.isScalar = true) :
    (Json.ofTree? room tree).map Value.ofJson = (Scalar.ofTree? tree).map Value.ofScalar := by
  cases tree with
  | null => rfl
  | boolean b => rfl
  | numeral chars =>
    rw [Json.ofTree?, Scalar.ofTree?]
    cases Numeral.ofChars? chars with
    | none => rfl
    | some numeral =>
      rw [Option.bind_some, Option.bind_some]
      cases numeral.number? with
      | none => rfl
      | some n => exact congrArg some (Value.ofScalar_ofNumber n).symm
  | string body =>
    rw [Json.ofTree?, Scalar.ofTree?]
    cases Json.decode? body <;> rfl
  | array items => cases h
  | object members => cases h

/-! ## Agreement -/

/-- The first form that takes a scalar comes to the value that is asked for. -/
theorem toValue_ofScalar? (scalar : Scalar) :
    (Literal.ofScalar? scalar).map Literal.toValue = some (Value.ofScalar scalar) := by
  cases scalar with
  | number n =>
    cases hinteger : n.asInt64? with
    | some i =>
      rw [Literal.ofScalar?_of_asInt64? hinteger, Value.ofScalar, hinteger]
      rfl
    | none =>
      rw [Literal.ofScalar?_of_not_asInt64? hinteger, Value.ofScalar, hinteger]
      rfl
  | _ => rfl

theorem toValue_ofTree? (room : Nat) {tree : Tree} (h : tree.isScalar = true) :
    (Literal.ofTree? tree).map Literal.toValue = (Json.ofTree? room tree).map Value.ofJson := by
  rw [Literal.ofTree?_eq, Json.ofTree?_eq room h]
  cases Scalar.ofTree? tree with
  | none => rfl
  | some scalar => exact toValue_ofScalar? scalar

/-! ## The constant of a text -/

/-- The node that carries the text. -/
def constText (text : String) : String := "\x7b\"const\": " ++ text ++ "\x7d"

theorem tree_of_constText {text : String} {tree : Tree} (h : Tree.read? text = some tree) :
    Tree.read? (constText text) = some (.object (.cons "const".toList tree .nil)) := by
  have hopening : "\x7b\"const\": " = "\x7b" ++ Tree.quoted "const".toList ++ ": " := by
    decide +kernel
  rw [constText, hopening]
  exact Tree.read?_member (Expr.isSome_pieces?_key "const" (by decide)) h

theorem Expr.read?_constText {text : String} {tree : Tree} (h : Tree.read? text = some tree) :
    Expr.read? (constText text) = (Literal.ofTree? tree).map const := by
  rw [Expr.read?, tree_of_constText h, Option.bind_some]
  unfold Expr.ofTree?
  simp only [Expr.decode?_key "const" (by decide)]
  rfl

def Json.isScalar : Json → Bool
  | .array _ => false
  | .object _ => false
  | _ => true

theorem Json.isScalar_of_ofTree? {room : Nat} {tree : Tree} {json : Json}
    (h : Json.ofTree? room tree = some json) (hscalar : json.isScalar = true) :
    tree.isScalar = true := by
  cases tree with
  | array items =>
    rw [Json.ofTree?] at h
    split_ifs at h
    obtain ⟨items', -, rfl⟩ := Option.map_eq_some_iff.1 h
    cases hscalar
  | object members =>
    rw [Json.ofTree?] at h
    split_ifs at h
    obtain ⟨members', -, rfl⟩ := Option.map_eq_some_iff.1 h
    cases hscalar
  | _ => rfl

/-- The literal of a scalar text has the value that the text is read as. -/
theorem exists_literal {text : String} {json : Json} (h : Json.read? text = some json)
    (hscalar : json.isScalar = true) :
    ∃ literal, Expr.read? (constText text) = some (.const literal) ∧
      literal.toValue = Value.ofJson json := by
  obtain ⟨tree, htree, hjson⟩ := Option.bind_eq_some_iff.1 h
  have hvalue := toValue_ofTree? Json.maxDepth (Json.isScalar_of_ofTree? hjson hscalar)
  rw [hjson, Option.map_some] at hvalue
  obtain ⟨literal, hliteral, hliteralValue⟩ := Option.map_eq_some_iff.1 hvalue
  exact ⟨literal, by rw [Expr.read?_constText htree, hliteral, Option.map_some], hliteralValue⟩

/-! ## Commands -/

/-- The same context with another root. -/
def Context.withRoot {σ : Type} (ctx : Context σ) (root : Value) : Context σ := { ctx with root }

namespace Command

variable {task : Task} {root : Value} {ctx : Context Unit}

theorem readBindings_withRoot (root : Value) : ∀ (bindings : List String) (ctx : Context Unit),
    readBindings bindings (ctx.withRoot root) = (readBindings bindings ctx).map (·.withRoot root)
  | [], _ => rfl
  | binding :: bindings, ctx => by
    simp only [readBindings]
    cases readBinding binding with
    | error e => rfl
    | ok entry => exact readBindings_withRoot root bindings (ctx.setVariable entry.1 entry.2)

theorem readDefault_withRoot (root : Value) (ctx : Context Unit) (nullDefault : Option String) :
    readDefault (ctx.withRoot root) nullDefault =
      (readDefault ctx nullDefault).map (·.withRoot root) := by
  cases nullDefault with
  | none => rfl
  | some text =>
    simp only [readDefault]
    cases readValue text <;> rfl

/-- Behind the reading of the root, the root is the answer in the one command as the constant is in
the other, and what else cannot be read is refused in both. -/
theorem answer_const_eq_answer_root {literal : Literal} (h : literal.toValue = root)
    (bindings : List String) (nullDefault : Option String) (ctx : Context Unit) :
    (readBindings bindings ctx >>= fun ctx =>
        readDefault ctx nullDefault >>= answer (.const literal)) =
      readBindings bindings (ctx.withRoot root) >>= fun ctx =>
        readDefault ctx nullDefault >>= answer .root := by
  rw [readBindings_withRoot]
  cases hbindings : readBindings bindings ctx with
  | error e => rfl
  | ok ctx₁ =>
    change (readDefault ctx₁ nullDefault >>= answer (.const literal)) =
      (readDefault (ctx₁.withRoot root) nullDefault >>= answer .root)
    rw [readDefault_withRoot]
    cases readDefault ctx₁ nullDefault with
    | error e => rfl
    | ok ctx₂ =>
      subst h
      rfl

theorem evaluate_const_eq_evaluate_root {literal : Literal} {text : String} {json : Json}
    {nullDefault : Option String} (hread : Json.read? text = some json)
    (hliteral : Expr.read? task.expression = some (.const literal))
    (hvalue : literal.toValue = Value.ofJson json) (hinput : readRoot task.input = .ok root) :
    evaluate task nullDefault =
      evaluate { task with expression := "\"root\"", input := some text } nullDefault := by
  have hroot : Expr.read? "\"root\"" = some .root := rfl
  have hinput' : readRoot (some text) = .ok (Value.ofJson json) := by
    rw [readRoot, readValue, hread]
  rw [evaluate_eq, evaluate_eq, readContext_eq, readContext_eq, readExpr, readExpr, hliteral, hroot,
    hinput, hinput']
  exact answer_const_eq_answer_root hvalue task.bindings nullDefault _

end Command

open Command in
/-- A literal in the first form that takes a scalar, and a value that asks a number for an integer
first, are the same. So the constant of a text is evaluated to what the root is when the text is the
input: to the same JSON, with the same variables and the same substitute for null. -/
theorem constants_and_input_read_scalars_alike :
    (∀ tree : Tree, Literal.ofTree? tree = (Scalar.ofTree? tree).bind Literal.ofScalar?) ∧
    (∀ (room : Nat) (tree : Tree), tree.isScalar = true →
      (Json.ofTree? room tree).map Value.ofJson = (Scalar.ofTree? tree).map Value.ofScalar) ∧
    ∀ (text : String) (json : Json), Json.read? text = some json → json.isScalar = true →
      (∃ literal, Expr.read? (constText text) = some (.const literal) ∧
        literal.toValue = Value.ofJson json) ∧
      (∀ (task : Task) (nullDefault : Option String) (root : Value),
        readRoot task.input = .ok root →
          evaluate { task with expression := constText text } nullDefault =
            evaluate { task with expression := "\"root\"", input := some text } nullDefault) ∧
      ∀ allowAll : Bool, evaluate ⟨constText text, none, [], allowAll⟩ none =
        .ok (Value.ofJson json).toJson := by
  refine ⟨Literal.ofTree?_eq, fun room tree => Json.ofTree?_eq room,
    fun text json hread hscalar => ?_⟩
  obtain ⟨literal, hliteral, hvalue⟩ := exists_literal hread hscalar
  refine ⟨⟨literal, hliteral, hvalue⟩, fun task nullDefault root hinput => ?_, fun allowAll => ?_⟩
  · exact evaluate_const_eq_evaluate_root hread hliteral hvalue hinput
  · rw [evaluate_eq, readExpr, hliteral, ← hvalue]
    rfl

theorem Json.Numeral.integer?_of_beyond {n : UInt64} (h : 0x8000000000000000 ≤ n.toNat) :
    Numeral.integer? false n.toNat = some (.large n h) := by
  simp [Numeral.integer?, Number.ofUInt64, h]

/-- The least whole number above the integer range. -/
def Json.leastLarge : Json := .number (.large 0x8000000000000000 (by decide))

theorem Json.read?_leastLarge : Json.read? "9223372036854775808" = some Json.leastLarge := by
  have htree : Tree.read? "9223372036854775808" =
      some (.numeral "9223372036854775808".toList) := rfl
  have hnumeral : Numeral.ofChars? "9223372036854775808".toList =
      some ⟨false, [9, 2, 2, 3, 3, 7, 2, 0, 3, 6, 8, 5, 4, 7, 7, 5, 8, 0, 8], none, none⟩ := rfl
  have hsignificand : Numeral.significand 0
      [9, 2, 2, 3, 3, 7, 2, 0, 3, 6, 8, 5, 4, 7, 7, 5, 8, 0, 8] = (9223372036854775808, []) := by
    simp [Numeral.significand]
  have hbeyond : 0x8000000000000000 ≤ (0x8000000000000000 : UInt64).toNat := by decide
  rw [Json.read?, htree, Option.bind_some, Json.ofTree?, hnumeral, Option.bind_some,
    Numeral.number?, hsignificand]
  exact congrArg (Option.map Json.number) (Numeral.integer?_of_beyond hbeyond)

open Command in
/-- One above the integer range the constant and the input are the same double. -/
theorem scalars_read_alike_above_the_integers :
    (Json.ofTree? 0 .null).map Value.ofJson = (Scalar.ofTree? .null).map Value.ofScalar ∧
      (∃ literal, Expr.read? (constText "9223372036854775808") = some (.const literal) ∧
        literal.toValue = Value.ofJson Json.leastLarge) ∧
      evaluate ⟨constText "9223372036854775808", none, ["n=1"], false⟩ (some "7") =
        evaluate ⟨"\"root\"", some "9223372036854775808", ["n=1"], false⟩ (some "7") := by
  obtain ⟨-, hvalues, hscalars⟩ := constants_and_input_read_scalars_alike
  obtain ⟨hliteral, hevaluate, -⟩ := hscalars _ _ Json.read?_leastLarge rfl
  exact ⟨hvalues 0 .null rfl, hliteral,
    hevaluate ⟨"\"root\"", none, ["n=1"], false⟩ (some "7") .null rfl⟩

end ObjectGraph
