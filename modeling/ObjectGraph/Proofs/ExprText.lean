import Mathlib.Data.List.Basic
import ObjectGraph.Expr.Display
import ObjectGraph.Proofs.TextCuts

/-!
# Text of expressions

The text of an expression is put together from the texts of its parts: operands, with parentheses
around every operator but a negation, and links, with a dot before those without brackets. Where
names are identifiers and constants are strings, its first character tells which of six forms it is.
-/
namespace ObjectGraph

namespace Expr

/-! ## Legible expressions -/

/-- At every node. -/
inductive Throughout (P : Expr → Prop) : Expr → Prop
  | mk {e : Expr} (own : P e) (parts : ∀ part ∈ e.children, Throughout P part) : Throughout P e

theorem Throughout.own {P : Expr → Prop} {e : Expr} : e.Throughout P → P e
  | .mk own _ => own

theorem Throughout.part {P : Expr → Prop} {e part : Expr} :
    e.Throughout P → part ∈ e.children → part.Throughout P
  | .mk _ parts, hmem => parts part hmem

/-- Every character beyond ASCII counts as a letter. -/
def isNameChar (c : Char) : Bool := c.isAlphanum || c = '_' || 0x80 ≤ c.toNat

structure IsIdentifier (name : String) : Prop where
  nonempty : name ≠ ""
  chars : ∀ c ∈ name.toList, isNameChar c = true
  noDigit : ∀ c ∈ name.toList.head?, c.isDigit = false
  notReserved : name ∉ ["null", "true", "false", "root", "this"]

def isChain : Expr → Bool
  | chain _ => true
  | _ => false

def isNegation : Expr → Bool
  | not _ => true
  | _ => false

/-- Names are identifiers and constants strings, and no chain or connective is there for nothing. -/
def LegibleNode : Expr → Prop
  | const literal => ∃ s, literal = .string s
  | var name | property name | method name _ => IsIdentifier name
  | chain links => 2 ≤ links.length ∧ ∀ link ∈ links, link.isChain = false
  | logical _ operands => 2 ≤ operands.length
  | _ => True

abbrev Legible (e : Expr) : Prop := e.Throughout LegibleNode

/-- No negation before the last link. -/
abbrev Led (links : List Expr) : Prop := ∀ link ∈ links.dropLast, link.isNegation = false

/-- A negation would take the links after it for its own. -/
def SettledNode : Expr → Prop
  | chain links => Led links
  | _ => True

abbrev Settled (e : Expr) : Prop := e.Throughout SettledNode

/-! ## Parts of the text -/

/-- The text as a part of an operator or of a chain. -/
def operandText (e : Expr) : String := e.enclosed e.display

/-- The text as a link after the first. -/
def linkText (e : Expr) : String := (if e.isBracketed then "" else ".") ++ e.operandText

theorem displayAll_eq_map (es : List Expr) : displayAll es = es.map display := by
  induction es with
  | nil => rfl
  | cons e es ih => rw [displayAll, ih, List.map_cons]

theorem displayOperands_eq_map (es : List Expr) : displayOperands es = es.map operandText := by
  induction es with
  | nil => rfl
  | cons e es ih => rw [displayOperands, ih, List.map_cons, operandText]

/-- The characters of the links after the first. -/
def linksText (links : List Expr) : List Char := links.flatMap fun link => link.linkText.toList

theorem linksText_cons (link : Expr) (links : List Expr) :
    linksText (link :: links) = link.linkText.toList ++ linksText links := rfl

theorem toList_displayLinks (links : List Expr) :
    (displayLinks links).toList = linksText links := by
  induction links with
  | nil => rfl
  | cons link links ih =>
    rw [displayLinks, String.toList_append, ih, linksText_cons, linkText, operandText]

theorem operandText_of_not_infixed {e : Expr} (h : e.isInfixed = false) :
    e.operandText = e.display := by
  rw [operandText, enclosed, h, if_neg Bool.false_ne_true]

theorem operandText_of_infixed {e : Expr} (h : e.isInfixed = true) :
    e.operandText = "(" ++ e.display ++ ")" := by
  rw [operandText, enclosed, if_pos h]

theorem toList_operandText_var (name : String) :
    (var name).operandText.toList = '#' :: name.toList := by
  rw [operandText_of_not_infixed rfl, display, String.toList_append]
  rfl

theorem toList_operandText_property (name : String) :
    (property name).operandText.toList = name.toList := by
  rw [operandText_of_not_infixed rfl, display]

theorem toList_operandText_method (name : String) (args : List Expr) :
    (method name args).operandText.toList =
      name.toList ++ '(' :: ((Text.joined ", " (args.map display)).toList ++ [')']) := by
  rw [operandText_of_not_infixed rfl, display, displayAll_eq_map]
  simp

theorem toList_operandText_index (key : Expr) :
    (index key).operandText.toList = '[' :: (key.display.toList ++ [']']) := by
  rw [operandText_of_not_infixed rfl, display]
  simp

/-- The character between the brackets. -/
def subscriptSign : Subscript → Char
  | .first => '^'
  | .middle => '|'
  | .last => '$'
  | .all => '*'

theorem toList_operandText_subscript (s : Subscript) :
    (subscript s).operandText.toList = ['[', subscriptSign s, ']'] := by
  cases s <;> rfl

theorem toList_operandText_not (operand : Expr) :
    (not operand).operandText.toList = '!' :: operand.operandText.toList := by
  rw [operandText_of_not_infixed rfl, display, String.toList_append]
  rfl

theorem toList_operandText_of_infixed {e : Expr} (h : e.isInfixed = true) :
    e.operandText.toList = '(' :: (e.display.toList ++ [')']) := by
  rw [operandText_of_infixed h]
  simp

/-- Any expression as the links of a chain. -/
def links : Expr → List Expr
  | chain links => links
  | e => [e]

theorem links_of_not_chain {e : Expr} (h : e.isChain = false) : e.links = [e] := by
  cases e with
  | chain => cases h
  | _ => rfl

theorem toList_operandText_of_links {e first : Expr} {others : List Expr}
    (h : e.links = first :: others) :
    e.operandText.toList = first.operandText.toList ++ linksText others := by
  cases e with
  | chain links =>
    cases h
    rw [operandText_of_not_infixed rfl, display, String.toList_append, toList_displayLinks]
    rfl
  | _ =>
    cases h
    exact (List.append_nil _).symm

theorem toList_display_of_infixed {e first : Expr} {others : List Expr} {symbol : String}
    (h : e.isInfixed = true) (hsymbol : e.operator? = some symbol)
    (hchildren : e.children = first :: others) :
    e.display.toList = first.operandText.toList ++
      Text.separated (" " ++ symbol ++ " ") (others.map operandText) := by
  cases e with
  | logical op operands =>
    cases hsymbol
    cases hchildren
    rw [display, displayOperands_eq_map, List.map_cons, Text.toList_joined_cons]
  | compare op left right =>
    cases hsymbol
    cases hchildren
    simp only [display, operandText, Text.separated, String.toList_append, List.append_assoc,
      List.map_cons, List.map_nil, List.flatMap_cons, List.flatMap_nil, List.append_nil]
  | _ => cases h

theorem infix_separated {separator part : String} {parts : List String} (h : part ∈ parts) :
    part.toList <:+: Text.separated separator parts := by
  rw [Text.separated, List.flatMap_def]
  exact (List.suffix_append separator.toList part.toList).isInfix.trans
    (List.infix_of_mem_flatten (List.mem_map_of_mem h))

theorem infix_linksText {link : Expr} {links : List Expr} (h : link ∈ links) :
    link.operandText.toList <:+: linksText links := by
  have hlink : link.operandText.toList <:+ link.linkText.toList := by
    rw [linkText, String.toList_append]
    exact List.suffix_append ..
  rw [linksText, List.flatMap_def]
  exact hlink.isInfix.trans (List.infix_of_mem_flatten (List.mem_map_of_mem h))

/-- The text of an operator or of a chain holds that of its parts, with their parentheses. -/
theorem infix_display {e part : Expr} (he : e.operator?.isSome = true ∨ e.isChain = true)
    (hmem : part ∈ e.children) : part.operandText.toList <:+: e.display.toList := by
  obtain ⟨first, others, hchildren⟩ :=
    List.exists_cons_of_ne_nil (List.ne_nil_of_mem hmem)
  rw [hchildren] at hmem
  have hfirst (rest : List Char) : first.operandText.toList <:+: first.operandText.toList ++ rest :=
    (List.prefix_append ..).isInfix
  have hinfixed (symbol : String) (hinfixed : e.isInfixed = true)
      (hsymbol : e.operator? = some symbol) : part.operandText.toList <:+: e.display.toList := by
    rw [toList_display_of_infixed hinfixed hsymbol hchildren]
    rcases List.mem_cons.1 hmem with rfl | hmem
    · exact hfirst _
    · exact (infix_separated (List.mem_map_of_mem hmem)).trans (List.suffix_append ..).isInfix
  cases e with
  | chain links =>
    have hlinks : (chain links).links = first :: others := hchildren
    rw [← operandText_of_not_infixed rfl, toList_operandText_of_links hlinks]
    rcases List.mem_cons.1 hmem with rfl | hmem
    · exact hfirst _
    · exact (infix_linksText hmem).trans (List.suffix_append ..).isInfix
  | not operand =>
    cases hchildren
    obtain rfl := List.mem_singleton.1 hmem
    rw [← operandText_of_not_infixed (show (not part).isInfixed = false from rfl),
      toList_operandText_not]
    exact (List.suffix_cons ..).isInfix
  | logical op operands => exact hinfixed op.symbol rfl rfl
  | compare op left right => exact hinfixed op.symbol rfl rfl
  | _ => simp [operator?, isChain] at he

/-! ## Forms -/

theorem Throughout.of_mem_links {P : Expr → Prop} {e link : Expr} (he : e.Throughout P)
    (hmem : link ∈ e.links) : link.Throughout P := by
  cases e with
  | chain links => exact he.part hmem
  | _ =>
    obtain rfl := List.mem_singleton.1 hmem
    exact he

theorem Legible.isChain_of_mem_links {e link : Expr} (he : e.Legible) (hmem : link ∈ e.links) :
    link.isChain = false := by
  cases e with
  | chain links => exact he.own.2 link hmem
  | _ =>
    obtain rfl := List.mem_singleton.1 hmem
    rfl

theorem Legible.exists_links {e : Expr} (he : e.Legible) :
    ∃ first others, e.links = first :: others := by
  refine List.exists_cons_of_ne_nil fun hnil => ?_
  cases e with
  | chain links =>
    have htwo := he.own.1
    rw [show links = [] from hnil] at htwo
    cases htwo
  | _ => cases hnil

theorem Legible.exists_children {e : Expr} (he : e.Legible) (h : e.isInfixed = true) :
    ∃ symbol first second others, e.operator? = some symbol ∧ symbol.toList.length = 2 ∧
      e.children = first :: second :: others := by
  cases e with
  | logical op operands =>
    have htwo : 2 ≤ operands.length := he.own
    match operands, htwo with
    | first :: second :: others, _ =>
      exact ⟨op.symbol, first, second, others, rfl, by cases op <;> rfl, rfl⟩
  | compare op left right =>
    exact ⟨op.symbol, left, right, [], rfl, by cases op <;> rfl, rfl⟩
  | _ => cases h

theorem eq_of_infixed {a b : Expr} (ha : a.isInfixed = true) (hb : b.isInfixed = true)
    (hsymbol : a.operator? = b.operator?) (hchildren : a.children = b.children) : a = b := by
  cases a with
  | logical op operands =>
    cases b with
    | logical op' operands' =>
      obtain rfl : operands = operands' := hchildren
      cases op <;> cases op' <;> first | rfl | simp [operator?, Connective.symbol] at hsymbol
    | compare op' left right =>
      cases op <;> cases op' <;> simp [operator?, Connective.symbol, Comparison.symbol] at hsymbol
    | _ => cases hb
  | compare op left right =>
    cases b with
    | compare op' left' right' =>
      cases hchildren
      cases op <;> cases op' <;> first | rfl | simp [operator?, Comparison.symbol] at hsymbol
    | logical op' operands =>
      cases op <;> cases op' <;> simp [operator?, Connective.symbol, Comparison.symbol] at hsymbol
    | _ => cases hb
  | _ => cases ha

/-- What a text begins with. -/
inductive Opening
  | quote
  | mark
  | name
  | bracket
  | bang
  | parenthesis

def Opening.of? (c : Char) : Option Opening :=
  if isNameChar c then some name
  else if c = '"' then some quote
  else if c = '#' then some mark
  else if c = '[' then some bracket
  else if c = '!' then some bang
  else if c = '(' then some parenthesis
  else none

/-- The opening of a link. -/
def opening : Expr → Opening
  | const _ => .quote
  | root | source | var _ => .mark
  | property _ | method _ _ => .name
  | index _ | subscript _ => .bracket
  | not _ => .bang
  | chain _ | logical _ _ | compare _ _ _ => .parenthesis

theorem IsIdentifier.exists_toList {name : String} (h : IsIdentifier name) :
    ∃ c rest, name.toList = c :: rest ∧ isNameChar c = true := by
  obtain ⟨c, rest, hname⟩ := List.exists_cons_of_ne_nil (mt String.toList_eq_nil_iff.1 h.nonempty)
  exact ⟨c, rest, hname, h.chars c (hname ▸ List.mem_cons_self)⟩

/-- The text of a link begins with its opening. -/
theorem exists_operandText_of_link {e : Expr} (he : e.Legible) (hchain : e.isChain = false) :
    ∃ c rest, e.operandText.toList = c :: rest ∧ Opening.of? c = some e.opening := by
  cases e with
  | const literal =>
    obtain ⟨s, rfl⟩ := he.own
    exact ⟨'"', _, String.toList_ofList, rfl⟩
  | root => exact ⟨'#', _, rfl, rfl⟩
  | source => exact ⟨'#', _, rfl, rfl⟩
  | var name => exact ⟨'#', _, toList_operandText_var name, rfl⟩
  | property name =>
    obtain ⟨c, rest, hname, hc⟩ := IsIdentifier.exists_toList he.own
    exact ⟨c, rest, by rw [toList_operandText_property, hname], if_pos hc⟩
  | method name args =>
    obtain ⟨c, rest, hname, hc⟩ := IsIdentifier.exists_toList he.own
    exact ⟨c, _, by rw [toList_operandText_method, hname, List.cons_append], if_pos hc⟩
  | index key => exact ⟨'[', _, toList_operandText_index key, rfl⟩
  | subscript s => exact ⟨'[', _, toList_operandText_subscript s, rfl⟩
  | not operand => exact ⟨'!', _, toList_operandText_not operand, rfl⟩
  | chain links => cases hchain
  | logical op operands => exact ⟨'(', _, toList_operandText_of_infixed rfl, rfl⟩
  | compare op left right => exact ⟨'(', _, toList_operandText_of_infixed rfl, rfl⟩

theorem exists_operandText {e : Expr} (he : e.Legible) :
    ∃ c rest, e.operandText.toList = c :: rest ∧ (Opening.of? c).isSome = true := by
  obtain ⟨first, others, hlinks⟩ := he.exists_links
  have hfirst : first ∈ e.links := hlinks ▸ List.mem_cons_self
  obtain ⟨c, rest, htext, hc⟩ := exists_operandText_of_link (he.of_mem_links hfirst)
    (he.isChain_of_mem_links hfirst)
  refine ⟨c, rest ++ linksText others, ?_, by rw [hc]; rfl⟩
  rw [toList_operandText_of_links hlinks, htext, List.cons_append]

theorem exists_display {e : Expr} (he : e.Legible) :
    ∃ c rest, e.display.toList = c :: rest ∧ (Opening.of? c).isSome = true := by
  cases hinfixed : e.isInfixed with
  | false =>
    rw [← operandText_of_not_infixed hinfixed]
    exact exists_operandText he
  | true =>
    obtain ⟨symbol, first, second, others, hsymbol, -, hchildren⟩ := he.exists_children hinfixed
    obtain ⟨c, rest, htext, hc⟩ := exists_operandText (he.part (hchildren ▸ List.mem_cons_self))
    rw [toList_display_of_infixed hinfixed hsymbol hchildren, htext]
    exact ⟨c, _, rfl, hc⟩

end Expr
end ObjectGraph
