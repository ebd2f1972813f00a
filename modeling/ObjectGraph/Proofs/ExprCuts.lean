import ObjectGraph.Proofs.ExprText

/-!
# Telling expressions by their text

The text of an expression can be cut off what follows it, for each of its forms ends where no
character continues it. A negation takes the links after it for its own, so the links of a chain can
be told apart only when no negation stands before the last of them. Then the text tells the
expression.
-/
namespace ObjectGraph

open Text (Cuts Ends)

namespace Expr

/-! ## What goes on -/

/-- What goes on after a link. -/
def continuesLink (c : Char) : Bool := isNameChar c || c = '('

/-- What goes on after an operand: a chain goes on with further links. -/
def continuesOperand (c : Char) : Bool := continuesLink c || c = '.' || c = '['

/-- What goes on after an expression: an operator goes on with a blank and its symbol. -/
def continuesExpr (c : Char) : Bool := continuesOperand c || c = ' '

/-- A negation goes on as its operand does. -/
def continues (e : Expr) : Char → Bool := if e.isNegation then continuesOperand else continuesLink

section Rests

variable {rest : List Char}

theorem ends_name (h : Ends continuesLink rest) : Ends isNameChar rest :=
  h.of_imp fun c hc => by rw [continuesLink, hc, Bool.true_or]

theorem ends_link (h : Ends continuesOperand rest) : Ends continuesLink rest :=
  h.of_imp fun c hc => by rw [continuesOperand, hc, Bool.true_or, Bool.true_or]

theorem ends_operand (h : Ends continuesExpr rest) : Ends continuesOperand rest :=
  h.of_imp fun c hc => by rw [continuesExpr, hc, Bool.true_or]

theorem ends_continues {e : Expr} (h : Ends continuesOperand rest) : Ends e.continues rest := by
  unfold continues
  split
  · exact h
  · exact ends_link h

theorem ends_link_of_continues {e : Expr} (h : Ends e.continues rest) :
    Ends continuesLink rest := by
  unfold continues at h
  split at h
  · exact ends_link h
  · exact h

end Rests

/-- A link and another one are told apart before what neither goes on with. -/
def LinkCut (a b : Expr) : Prop :=
  ∀ r s, Ends a.continues r → Ends b.continues s →
    a.operandText.toList ++ r = b.operandText.toList ++ s → a = b ∧ r = s

section Cuts

variable {a b : Expr} {r s : List Char}

theorem opening_eq (ha : a.Legible) (hb : b.Legible) (hchain : a.isChain = false)
    (hchain' : b.isChain = false)
    (h : a.operandText.toList ++ r = b.operandText.toList ++ s) : a.opening = b.opening := by
  obtain ⟨c, x, hc, hopening⟩ := exists_operandText_of_link ha hchain
  obtain ⟨d, y, hd, hopening'⟩ := exists_operandText_of_link hb hchain'
  rw [hc, hd] at h
  rw [(List.cons.inj h).1, hopening', Option.some.injEq] at hopening
  exact hopening.symm

/-! ## References -/

/-- What a word after the mark refers to. -/
def referred (word : String) : Expr :=
  if word = "root" then root else if word = "this" then source else var word

theorem Legible.exists_word (ha : a.Legible) (h : a.opening = .mark) :
    ∃ word, a.operandText.toList = '#' :: word.toList ∧
      (∀ c ∈ word.toList, isNameChar c = true) ∧ a = referred word := by
  cases a with
  | root => exact ⟨"root", rfl, List.all_eq_true.1 rfl, rfl⟩
  | source => exact ⟨"this", rfl, List.all_eq_true.1 rfl, rfl⟩
  | var name =>
    have hname : IsIdentifier name := ha.own
    have hreserved := hname.notReserved
    simp only [List.mem_cons, not_or] at hreserved
    obtain ⟨-, -, -, hroot, hthis, -⟩ := hreserved
    exact ⟨name, toList_operandText_var name, hname.chars,
      by rw [referred, if_neg hroot, if_neg hthis]⟩
  | _ => cases h

theorem reference_cut (ha : a.Legible) (hb : b.Legible) (hmark : a.opening = .mark)
    (hmark' : b.opening = .mark) (hr : Ends continuesLink r) (hs : Ends continuesLink s)
    (h : a.operandText.toList ++ r = b.operandText.toList ++ s) : a = b ∧ r = s := by
  obtain ⟨word, htext, hword, ha⟩ := ha.exists_word hmark
  obtain ⟨word', htext', hword', hb⟩ := hb.exists_word hmark'
  rw [htext, htext'] at h
  obtain ⟨hwords, hrest⟩ :=
    Text.run_cut hword hword' (ends_name hr) (ends_name hs) (List.cons.inj h).2
  exact ⟨by rw [ha, hb, String.toList_injective hwords], hrest⟩

/-! ## Names -/

/-- What follows the name of a property or of a method. -/
inductive NameTail (name : String) : Expr → List Char → Prop
  | property : NameTail name (property name) []
  | method (args : List Expr) : NameTail name (method name args)
      ('(' :: ((Text.joined ", " (args.map display)).toList ++ [')']))

theorem Legible.exists_name (ha : a.Legible) (h : a.opening = .name) :
    ∃ name tail, a.operandText.toList = name.toList ++ tail ∧
      (∀ c ∈ name.toList, isNameChar c = true) ∧ NameTail name a tail := by
  cases a with
  | property name =>
    have hname : IsIdentifier name := ha.own
    refine ⟨name, [], ?_, hname.chars, .property⟩
    rw [toList_operandText_property, List.append_nil]
  | method name args =>
    have hname : IsIdentifier name := ha.own
    exact ⟨name, _, toList_operandText_method name args, hname.chars, .method args⟩
  | _ => cases h

theorem NameTail.ends {name : String} {tail : List Char} (ha : NameTail name a tail)
    (hr : Ends continuesLink r) : Ends isNameChar (tail ++ r) := by
  cases ha with
  | property => exact ends_name hr
  | method args => exact Text.ends_cons rfl

theorem args_cut {as bs : List Expr} (has : ∀ x ∈ as, x.Legible) (hbs : ∀ y ∈ bs, y.Legible)
    (hargs : ∀ x ∈ as, ∀ y ∈ bs, Cuts display (Ends continuesExpr) x y)
    (h : (Text.joined ", " (as.map display)).toList ++ ')' :: r =
      (Text.joined ", " (bs.map display)).toList ++ ')' :: s) : as = bs ∧ r = s := by
  have hfirst {x : Expr} (hx : x.Legible) (y z : List Char) :
      x.display.toList ++ y ≠ ')' :: z := by
    obtain ⟨c, rest, htext, hc⟩ := exists_display hx
    intro h
    rw [htext] at h
    rw [(List.cons.inj h).1] at hc
    cases hc
  have hcomma (x y : List Char) : ", ".toList ++ x ≠ ')' :: y := nofun
  obtain ⟨hlists, hrest⟩ := Text.joined_cut hargs (fun x => Text.ends_cons rfl)
    (Text.ends_cons rfl) (Text.ends_cons rfl) (hcomma · r) (hcomma · s)
    (fun x hx y => hfirst (has x hx) y s) (fun x hx y => hfirst (hbs x hx) y r) h
  exact ⟨hlists, (List.cons.inj hrest).2⟩

theorem name_cut (ha : a.Legible) (hb : b.Legible) (hname : a.opening = .name)
    (hname' : b.opening = .name)
    (hargs : ∀ x ∈ a.children, ∀ y ∈ b.children, Cuts display (Ends continuesExpr) x y)
    (hr : Ends continuesLink r) (hs : Ends continuesLink s)
    (h : a.operandText.toList ++ r = b.operandText.toList ++ s) : a = b ∧ r = s := by
  obtain ⟨name, tail, htext, hchars, htail⟩ := ha.exists_name hname
  obtain ⟨name', tail', htext', hchars', htail'⟩ := hb.exists_name hname'
  rw [htext, htext', List.append_assoc, List.append_assoc] at h
  obtain ⟨hnames, hrest⟩ := Text.run_cut hchars hchars' (htail.ends hr) (htail'.ends hs) h
  obtain rfl := String.toList_injective hnames
  cases htail with
  | property =>
    cases htail' with
    | property => exact ⟨rfl, hrest⟩
    | method args' => exact absurd (hr '(' (by rw [← List.nil_append r, hrest]; rfl)) (by decide)
  | method args =>
    cases htail' with
    | property => exact absurd (hs '(' (by rw [← List.nil_append s, ← hrest]; rfl)) (by decide)
    | method args' =>
      simp only [List.cons_append, List.append_assoc, List.cons.injEq, true_and, List.nil_append]
        at hrest
      have hcut : args = args' ∧ r = s :=
        args_cut (fun x hx => ha.part hx) (fun y hy => hb.part hy) hargs hrest
      exact ⟨by rw [hcut.1], hcut.2⟩

/-! ## Brackets -/

theorem bracket_cut (ha : a.Legible) (hb : b.Legible) (hbracket : a.opening = .bracket)
    (hbracket' : b.opening = .bracket)
    (hkey : ∀ x ∈ a.children, ∀ y ∈ b.children, Cuts display (Ends continuesExpr) x y)
    (h : a.operandText.toList ++ r = b.operandText.toList ++ s) : a = b ∧ r = s := by
  have hmixed {key : Expr} (hkey : key.Legible) (sub : Subscript) (x y : List Char) :
      (index key).operandText.toList ++ x ≠ (subscript sub).operandText.toList ++ y := by
    obtain ⟨c, rest, htext, hc⟩ := exists_display hkey
    rw [toList_operandText_index, htext, toList_operandText_subscript]
    intro h
    have hsign : c = subscriptSign sub := (List.cons.inj (List.cons.inj h).2).1
    rw [hsign] at hc
    cases sub <;> cases hc
  cases a with
  | index key =>
    cases b with
    | index key' =>
      simp only [toList_operandText_index, List.cons_append, List.append_assoc, List.cons.injEq,
        true_and, List.nil_append] at h
      obtain ⟨rfl, hrest⟩ := hkey key List.mem_cons_self key' List.mem_cons_self _ _
        (Text.ends_cons rfl) (Text.ends_cons rfl) h
      exact ⟨rfl, (List.cons.inj hrest).2⟩
    | subscript sub' => exact absurd h (hmixed (ha.part List.mem_cons_self) sub' r s)
    | _ => cases hbracket'
  | subscript sub =>
    cases b with
    | index key' => exact absurd h.symm (hmixed (hb.part List.mem_cons_self) sub s r)
    | subscript sub' =>
      rw [toList_operandText_subscript, toList_operandText_subscript] at h
      cases sub <;> cases sub' <;> cases h <;> exact ⟨rfl, rfl⟩
    | _ => cases hbracket'
  | _ => cases hbracket

/-! ## Operators -/

theorem display_cut_of_infixed (ha : a.Legible) (hb : b.Legible) (hinfixed : a.isInfixed = true)
    (hinfixed' : b.isInfixed = true)
    (hoperands : ∀ x ∈ a.children, ∀ y ∈ b.children, Cuts operandText (Ends continuesOperand) x y) :
    Cuts display (Ends continuesExpr) a b := by
  intro r s hr hs h
  obtain ⟨symbol, first, second, others, hsymbol, htwo, hchildren⟩ := ha.exists_children hinfixed
  obtain ⟨symbol', first', second', others', hsymbol', htwo', hchildren'⟩ :=
    hb.exists_children hinfixed'
  rw [toList_display_of_infixed hinfixed hsymbol hchildren,
    toList_display_of_infixed hinfixed' hsymbol' hchildren', List.append_assoc,
    List.append_assoc] at h
  rw [hchildren, hchildren'] at hoperands
  have hblank (symbol : String) (x : List Char) :
      Ends continuesOperand ((" " ++ symbol ++ " ").toList ++ x) := by
    simp only [String.toList_append]
    exact Text.ends_cons rfl
  obtain ⟨hfirst, hrest⟩ := hoperands first List.mem_cons_self first' List.mem_cons_self _ _
    (Text.rest_of_separated (hblank symbol) (ends_operand hr) _)
    (Text.rest_of_separated (hblank symbol') (ends_operand hs) _) h
  have hsymbols : symbol = symbol' := by
    simp only [List.map_cons, Text.separated_cons, String.toList_append, List.append_assoc,
      List.append_cancel_left_eq] at hrest
    exact String.toList_injective (List.append_inj hrest (htwo.trans htwo'.symm)).1
  subst hsymbols
  have hfurther {rest : List Char} (hrest : Ends continuesExpr rest) (x : List Char) :
      (" " ++ symbol ++ " ").toList ++ x ≠ rest := by
    rintro rfl
    simp only [String.toList_append] at hrest
    exact absurd (hrest ' ' rfl) (by decide)
  obtain ⟨hothers, hrest⟩ := Text.separated_cut
    (fun x hx y hy => hoperands x (.tail _ hx) y (.tail _ hy)) (hblank symbol) (ends_operand hr)
    (ends_operand hs) (hfurther hr) (hfurther hs) hrest
  refine ⟨eq_of_infixed hinfixed hinfixed' (hsymbol.trans hsymbol'.symm) ?_, hrest⟩
  rw [hchildren, hchildren', hfirst, hothers]

theorem isInfixed_of_opening (hchain : a.isChain = false) (h : a.opening = .parenthesis) :
    a.isInfixed = true := by
  cases a with
  | chain links => cases hchain
  | logical op operands => rfl
  | compare op left right => rfl
  | _ => cases h

theorem infixed_cut (ha : a.Legible) (hb : b.Legible) (hinfixed : a.isInfixed = true)
    (hinfixed' : b.isInfixed = true)
    (hoperands : ∀ x ∈ a.children, ∀ y ∈ b.children, Cuts operandText (Ends continuesOperand) x y)
    (h : a.operandText.toList ++ r = b.operandText.toList ++ s) : a = b ∧ r = s := by
  simp only [toList_operandText_of_infixed hinfixed, toList_operandText_of_infixed hinfixed',
    List.cons_append, List.append_assoc, List.cons.injEq, true_and, List.nil_append] at h
  obtain ⟨hab, hrest⟩ := display_cut_of_infixed ha hb hinfixed hinfixed' hoperands _ _
    (Text.ends_cons rfl) (Text.ends_cons rfl) h
  exact ⟨hab, (List.cons.inj hrest).2⟩

/-! ## Links -/

/-- Two links are told apart when their parts are. -/
theorem linkCut (ha : a.Legible) (hb : b.Legible) (hchain : a.isChain = false)
    (hchain' : b.isChain = false)
    (hoperands : ∀ x ∈ a.children, ∀ y ∈ b.children, Cuts operandText (Ends continuesOperand) x y)
    (hexprs : ∀ x ∈ a.children, ∀ y ∈ b.children, Cuts display (Ends continuesExpr) x y) :
    LinkCut a b := by
  intro r s hr hs h
  have hopening := opening_eq ha hb hchain hchain' h
  cases hform : a.opening with
  | quote =>
    cases a with
    | const literal =>
      cases b with
      | const literal' =>
        obtain ⟨x, rfl⟩ := ha.own
        obtain ⟨y, rfl⟩ := hb.own
        obtain ⟨rfl, hrest⟩ := Text.quote_cut h
        exact ⟨rfl, hrest⟩
      | _ => cases hopening
    | _ => cases hform
  | mark =>
    exact reference_cut ha hb hform (hopening ▸ hform) (ends_link_of_continues hr)
      (ends_link_of_continues hs) h
  | name =>
    exact name_cut ha hb hform (hopening ▸ hform) hexprs (ends_link_of_continues hr)
      (ends_link_of_continues hs) h
  | bracket => exact bracket_cut ha hb hform (hopening ▸ hform) hexprs h
  | bang =>
    cases a with
    | not operand =>
      cases b with
      | not operand' =>
        rw [toList_operandText_not, toList_operandText_not] at h
        obtain ⟨rfl, hrest⟩ := hoperands operand List.mem_cons_self operand' List.mem_cons_self
          _ _ hr hs (List.cons.inj h).2
        exact ⟨rfl, hrest⟩
      | _ => cases hopening
    | _ => cases hform
  | parenthesis =>
    exact infixed_cut ha hb (isInfixed_of_opening hchain hform)
      (isInfixed_of_opening hchain' (hopening ▸ hform)) hoperands h

end Cuts

/-! ## Chains -/

theorem linkText_of_bracketed {e : Expr} (h : e.isBracketed = true) :
    e.linkText.toList = e.operandText.toList ∧ ∃ rest, e.operandText.toList = '[' :: rest := by
  rw [linkText, if_pos h, String.empty_append]
  refine ⟨rfl, ?_⟩
  cases e with
  | index key => exact ⟨_, toList_operandText_index key⟩
  | subscript s => exact ⟨_, toList_operandText_subscript s⟩
  | _ => cases h

theorem linkText_of_not_bracketed {e : Expr} (h : e.isBracketed = false) :
    e.linkText.toList = '.' :: e.operandText.toList := by
  rw [linkText, h, if_neg Bool.false_ne_true, String.toList_append]
  rfl

theorem exists_linkText (e : Expr) :
    ∃ c rest, e.linkText.toList = c :: rest ∧ (c = '.' ∨ c = '[') := by
  cases h : e.isBracketed with
  | false => exact ⟨'.', _, linkText_of_not_bracketed h, .inl rfl⟩
  | true =>
    obtain ⟨htext, rest, hrest⟩ := linkText_of_bracketed h
    exact ⟨'[', rest, htext.trans hrest, .inr rfl⟩

section Chains

variable {r s : List Char}

theorem Led.tail {link : Expr} {links : List Expr} (h : Led (link :: links)) : Led links := by
  cases links with
  | nil => exact nofun
  | cons next links => exact (List.forall_mem_cons.1 h).2

/-- A link that others follow is no negation, and what they begin with goes on with no other
link. -/
theorem ends_linksText {link : Expr} {links : List Expr} (hled : Led (link :: links))
    (hr : Ends continuesOperand r) : Ends link.continues (linksText links ++ r) := by
  cases links with
  | nil => exact ends_continues hr
  | cons next links =>
    have hlink : link.isNegation = false := hled link List.mem_cons_self
    obtain ⟨c, rest, htext, hc⟩ := exists_linkText next
    rw [continues, hlink, if_neg Bool.false_ne_true, linksText_cons, htext]
    refine Text.ends_cons ?_
    rcases hc with rfl | rfl <;> rfl

theorem links_cut {a b : Expr} {as bs : List Expr} (hcut : LinkCut a b) (hled : Led (a :: as))
    (hled' : Led (b :: bs)) (hr : Ends continuesOperand r) (hs : Ends continuesOperand s)
    (h : a.operandText.toList ++ (linksText as ++ r) =
      b.operandText.toList ++ (linksText bs ++ s)) :
    a = b ∧ linksText as ++ r = linksText bs ++ s :=
  hcut _ _ (ends_linksText hled hr) (ends_linksText hled' hs) h

theorem ne_of_ends (hr : Ends continuesOperand r) (link : Expr) (x : List Char) :
    link.linkText.toList ++ x ≠ r := by
  obtain ⟨c, rest, htext, hc⟩ := exists_linkText link
  rintro rfl
  rw [htext] at hr
  have hcontinues := hr c rfl
  rcases hc with rfl | rfl <;> cases hcontinues

theorem operandText_eq_of_linkText {a b : Expr} {x y : List Char}
    (h : a.linkText.toList ++ x = b.linkText.toList ++ y) :
    a.operandText.toList ++ x = b.operandText.toList ++ y := by
  cases ha : a.isBracketed with
  | false =>
    cases hb : b.isBracketed with
    | false =>
      rw [linkText_of_not_bracketed ha, linkText_of_not_bracketed hb] at h
      exact (List.cons.inj h).2
    | true =>
      obtain ⟨htext, rest, hrest⟩ := linkText_of_bracketed hb
      rw [linkText_of_not_bracketed ha, htext, hrest] at h
      cases h
  | true =>
    obtain ⟨htext, rest, hrest⟩ := linkText_of_bracketed ha
    cases hb : b.isBracketed with
    | false =>
      rw [linkText_of_not_bracketed hb, htext, hrest] at h
      cases h
    | true => rwa [htext, (linkText_of_bracketed hb).1] at h

theorem linksText_cut {as bs : List Expr} (hcuts : ∀ a ∈ as, ∀ b ∈ bs, LinkCut a b)
    (hled : Led as) (hled' : Led bs) (hr : Ends continuesOperand r) (hs : Ends continuesOperand s)
    (h : linksText as ++ r = linksText bs ++ s) : as = bs ∧ r = s := by
  induction as generalizing bs with
  | nil =>
    cases bs with
    | nil => exact ⟨rfl, h⟩
    | cons b bs =>
      rw [linksText_cons, List.append_assoc] at h
      exact absurd h.symm (ne_of_ends hr b _)
  | cons a as ih =>
    cases bs with
    | nil =>
      rw [linksText_cons, List.append_assoc] at h
      exact absurd h (ne_of_ends hs a _)
    | cons b bs =>
      rw [linksText_cons, linksText_cons, List.append_assoc, List.append_assoc] at h
      obtain ⟨rfl, hrest⟩ := links_cut (hcuts a List.mem_cons_self b List.mem_cons_self) hled hled'
        hr hs (operandText_eq_of_linkText h)
      obtain ⟨rfl, rfl⟩ :=
        ih (fun x hx y hy => hcuts x (.tail _ hx) y (.tail _ hy)) hled.tail hled'.tail hrest
      exact ⟨rfl, rfl⟩

end Chains

/-! ## Expressions -/

section Expressions

variable {a b : Expr}

theorem mem_links {link : Expr} (h : link ∈ a.links) :
    link ∈ a.children ∨ link = a ∧ a.isChain = false := by
  cases a with
  | chain links => exact .inl h
  | _ => exact .inr ⟨List.mem_singleton.1 h, rfl⟩

theorem Settled.led_links (ha : a.Settled) : Led a.links := by
  cases a with
  | chain links => exact ha.own
  | _ => exact nofun

theorem links_ne_of_chain (hb : b.Legible) (hchain : a.isChain = false)
    (hchain' : b.isChain = true) : a.links ≠ b.links := by
  intro h
  rw [links_of_not_chain hchain] at h
  cases b with
  | chain links =>
    have htwo : 2 ≤ links.length := hb.own.1
    rw [← show [a] = links from h] at htwo
    exact Nat.not_succ_le_self 1 htwo
  | _ => cases hchain'

theorem eq_of_links (ha : a.Legible) (hb : b.Legible) (h : a.links = b.links) : a = b := by
  cases hchain : a.isChain with
  | false =>
    cases hchain' : b.isChain with
    | false =>
      rw [links_of_not_chain hchain, links_of_not_chain hchain'] at h
      exact List.singleton_inj.1 h
    | true => exact absurd h (links_ne_of_chain hb hchain hchain')
  | true =>
    cases hchain' : b.isChain with
    | false => exact absurd h.symm (links_ne_of_chain ha hchain' hchain)
    | true =>
      cases a with
      | chain links =>
        cases b with
        | chain links' => exact congrArg chain h
        | _ => cases hchain'
      | _ => cases hchain

theorem operandText_cut (ha : a.Legible) (hb : b.Legible) (has : a.Settled) (hbs : b.Settled)
    (hcuts : ∀ x ∈ a.links, ∀ y ∈ b.links, LinkCut x y) :
    Cuts operandText (Ends continuesOperand) a b := by
  intro r s hr hs h
  obtain ⟨first, others, hlinks⟩ := ha.exists_links
  obtain ⟨first', others', hlinks'⟩ := hb.exists_links
  have hled := has.led_links
  have hled' := hbs.led_links
  rw [toList_operandText_of_links hlinks, toList_operandText_of_links hlinks', List.append_assoc,
    List.append_assoc] at h
  rw [hlinks, hlinks'] at hcuts
  rw [hlinks] at hled
  rw [hlinks'] at hled'
  obtain ⟨hfirst, hrest⟩ :=
    links_cut (hcuts first List.mem_cons_self first' List.mem_cons_self) hled hled' hr hs h
  obtain ⟨hothers, hrest⟩ := linksText_cut
    (fun x hx y hy => hcuts x (.tail _ hx) y (.tail _ hy)) hled.tail hled'.tail hr hs hrest
  exact ⟨eq_of_links ha hb (by rw [hlinks, hlinks', hfirst, hothers]), hrest⟩

/-- Behind its first operand an operator goes on with a blank. -/
theorem display_ne_of_infixed (hb : b.Legible) (hinfixed : a.isInfixed = false)
    (hinfixed' : b.isInfixed = true)
    (hcuts : ∀ y ∈ b.children, Cuts operandText (Ends continuesOperand) a y) {r s : List Char}
    (hr : Ends continuesExpr r) : a.display.toList ++ r ≠ b.display.toList ++ s := by
  obtain ⟨symbol, first, second, others, hsymbol, -, hchildren⟩ := hb.exists_children hinfixed'
  rw [← operandText_of_not_infixed hinfixed,
    toList_display_of_infixed hinfixed' hsymbol hchildren, List.append_assoc, List.map_cons,
    Text.separated_cons]
  simp only [String.toList_append, List.append_assoc]
  intro h
  obtain ⟨-, rfl⟩ := hcuts first (hchildren ▸ List.mem_cons_self) _ _ (ends_operand hr)
    (Text.ends_cons rfl) h
  exact absurd (hr ' ' rfl) (by decide)

theorem display_cut (ha : a.Legible) (hb : b.Legible)
    (hcuts : Cuts operandText (Ends continuesOperand) a b)
    (hleft : ∀ x ∈ a.children, Cuts operandText (Ends continuesOperand) x b)
    (hright : ∀ y ∈ b.children, Cuts operandText (Ends continuesOperand) a y)
    (hboth : ∀ x ∈ a.children, ∀ y ∈ b.children, Cuts operandText (Ends continuesOperand) x y) :
    Cuts display (Ends continuesExpr) a b := by
  intro r s hr hs h
  cases hinfixed : a.isInfixed with
  | false =>
    cases hinfixed' : b.isInfixed with
    | false =>
      rw [← operandText_of_not_infixed hinfixed, ← operandText_of_not_infixed hinfixed'] at h
      exact hcuts r s (ends_operand hr) (ends_operand hs) h
    | true => exact absurd h (display_ne_of_infixed hb hinfixed hinfixed' hright hr)
  | true =>
    cases hinfixed' : b.isInfixed with
    | false =>
      have hleft' (x : Expr) (hx : x ∈ a.children) := (hleft x hx).symm
      exact absurd h.symm (display_ne_of_infixed ha hinfixed' hinfixed hleft' hs)
    | true => exact display_cut_of_infixed ha hb hinfixed hinfixed' hboth r s hr hs h

/-- Two expressions are told apart as links, as operands and by themselves. -/
structure Apart (a b : Expr) : Prop where
  link : a.isChain = false → b.isChain = false → LinkCut a b
  operand : Cuts operandText (Ends continuesOperand) a b
  expr : Cuts display (Ends continuesExpr) a b

theorem apart (a : Expr) (ha : a.Legible) (has : a.Settled) (b : Expr) (hb : b.Legible)
    (hbs : b.Settled) : Apart a b := by
  induction a using of_children generalizing b with
  | h a ih =>
  have hparts {x : Expr} (hx : x ∈ a.children) (b : Expr) (hb : b.Legible) (hbs : b.Settled) :
      Apart x b := ih x hx (ha.part hx) (has.part hx) b hb hbs
  have hlink (b : Expr) (hb : b.Legible) (hbs : b.Settled) (hchain : a.isChain = false)
      (hchain' : b.isChain = false) : LinkCut a b :=
    linkCut ha hb hchain hchain'
      (fun x hx y hy => (hparts hx y (hb.part hy) (hbs.part hy)).operand)
      (fun x hx y hy => (hparts hx y (hb.part hy) (hbs.part hy)).expr)
  have hoperand (b : Expr) (hb : b.Legible) (hbs : b.Settled) :
      Cuts operandText (Ends continuesOperand) a b := by
    refine operandText_cut ha hb has hbs fun x hx y hy => ?_
    have hy' := hb.of_mem_links hy
    have hys := hbs.of_mem_links hy
    have hychain := hb.isChain_of_mem_links hy
    rcases mem_links hx with hchild | ⟨rfl, hchain⟩
    · exact (hparts hchild y hy' hys).link (ha.isChain_of_mem_links hx) hychain
    · exact hlink y hy' hys hchain hychain
  refine ⟨hlink b hb hbs, hoperand b hb hbs, ?_⟩
  exact display_cut ha hb (hoperand b hb hbs) (fun x hx => (hparts hx b hb hbs).operand)
    (fun y hy => hoperand y (hb.part hy) (hbs.part hy))
    (fun x hx y hy => (hparts hx y (hb.part hy) (hbs.part hy)).operand)

/-- Without negations before the last link of a chain, the text tells the expression. -/
theorem eq_of_display_eq (ha : a.Legible) (hb : b.Legible) (has : a.Settled) (hbs : b.Settled)
    (h : a.display = b.display) : a = b :=
  ((apart a ha has b hb hbs).expr [] [] Text.ends_nil Text.ends_nil (by rw [h])).1

end Expressions

end Expr
end ObjectGraph
