import ObjectGraph.Proofs.ExprCuts

/-!
# Negations as links

A negation is written without parentheses, so that before the last link of a chain it reads as the
negation of all that follows. Hoisting makes such trees what they read as. It keeps the text and
leaves nothing that could be read in another way: two legible expressions have the same text exactly
when hoisting makes them the same tree.
-/
namespace ObjectGraph

namespace Expr

mutual
/-- Further links after an expression. A negation takes them for its operand. -/
def extend : Expr → List Expr → Expr
  | not operand, more => not (operand.extend more)
  | chain links, more => chain (extendLinks links more)
  | e, more => chain (e :: more)
termination_by structural e => e

def extendLinks : List Expr → List Expr → List Expr
  | [], more => more
  | [link], more => if link.isNegation then [link.extend more] else link :: more
  | link :: next :: links, more => link :: extendLinks (next :: links) more
termination_by structural links => links
end

mutual
/-- The expression that the text is read as. -/
def hoisted : Expr → Expr
  | index key => index key.hoisted
  | method name args => method name (hoistedAll args)
  | chain (link :: next :: links) => link.hoisted.extend (hoistedLinks (next :: links))
  | not operand => not operand.hoisted
  | logical op operands => logical op (hoistedAll operands)
  | compare op left right => compare op left.hoisted right.hoisted
  | e => e
termination_by structural e => e

def hoistedAll : List Expr → List Expr
  | [] => []
  | e :: es => e.hoisted :: hoistedAll es
termination_by structural es => es

def hoistedLinks : List Expr → List Expr
  | [] => []
  | [link] => [link.hoisted]
  | link :: next :: links => extendLinks [link.hoisted] (hoistedLinks (next :: links))
termination_by structural links => links
end

theorem hoistedAll_eq_map (es : List Expr) : hoistedAll es = es.map hoisted := by
  induction es with
  | nil => rfl
  | cons e es ih => rw [hoistedAll, ih, List.map_cons]

theorem exists_hoistedLinks (link : Expr) (links : List Expr) :
    ∃ first others, hoistedLinks (link :: links) = first :: others := by
  cases links with
  | nil => exact ⟨link.hoisted, [], rfl⟩
  | cons next links =>
    rw [hoistedLinks, extendLinks]
    split
    · exact ⟨_, [], rfl⟩
    · exact ⟨_, _, rfl⟩

theorem extend_of_link {e : Expr} (hchain : e.isChain = false) (hnegation : e.isNegation = false)
    (more : List Expr) : e.extend more = chain (e :: more) := by
  cases e with
  | chain links => cases hchain
  | not operand => cases hnegation
  | _ => rfl

theorem isInfixed_extend (e : Expr) (more : List Expr) : (e.extend more).isInfixed = false := by
  cases e <;> rfl

theorem isBracketed_extend (e : Expr) (more : List Expr) :
    (e.extend more).isBracketed = false := by
  cases e <;> rfl

/-! ## Text of the links of a chain -/

def chainText : List Expr → List Char
  | [] => []
  | link :: links => link.operandText.toList ++ linksText links

theorem toList_operandText_chain (links : List Expr) :
    (chain links).operandText.toList = chainText links := by
  cases links with
  | nil => rfl
  | cons link links => exact toList_operandText_of_links rfl

/-- Whether the links begin with a bracket, so that no dot stands before them. -/
def beginBracketed (links : List Expr) : Bool := links.head?.any isBracketed

theorem linksText_eq_of_ne_nil {links : List Expr} (h : links ≠ []) :
    linksText links = (if beginBracketed links then [] else ['.']) ++ chainText links := by
  cases links with
  | nil => exact absurd rfl h
  | cons link links =>
    rw [linksText_cons, linkText, String.toList_append, chainText, ← List.append_assoc]
    cases hbracketed : link.isBracketed <;> simp [beginBracketed, hbracketed]

theorem linksText_of_chainText {links others : List Expr} {rest : List Char} (h : links ≠ [])
    (h' : others ≠ []) (hbegin : beginBracketed links = beginBracketed others)
    (htext : chainText links = chainText others ++ rest) :
    linksText links = linksText others ++ rest := by
  rw [linksText_eq_of_ne_nil h, linksText_eq_of_ne_nil h', hbegin, htext, List.append_assoc]

/-! ## Lists of links -/

/-- Links as a chain of them has, if there are two or more. -/
structure Linked (links : List Expr) : Prop where
  legible : ∀ link ∈ links, link.Legible
  settled : ∀ link ∈ links, link.Settled
  noChain : ∀ link ∈ links, link.isChain = false
  led : Led links

theorem Linked.of_chain {links : List Expr} (hlegible : (chain links).Legible)
    (hsettled : (chain links).Settled) : Linked links :=
  ⟨fun _ => hlegible.part, fun _ => hsettled.part, hlegible.own.2, hsettled.own⟩

theorem Linked.legible_chain {links : List Expr} (h : Linked links) (htwo : 2 ≤ links.length) :
    (chain links).Legible :=
  .mk ⟨htwo, h.noChain⟩ h.legible

theorem Linked.settled_chain {links : List Expr} (h : Linked links) : (chain links).Settled :=
  .mk h.led h.settled

theorem Linked.singleton {link : Expr} (hlegible : link.Legible) (hsettled : link.Settled)
    (hchain : link.isChain = false) : Linked [link] :=
  ⟨List.forall_mem_singleton.2 hlegible, List.forall_mem_singleton.2 hsettled,
    List.forall_mem_singleton.2 hchain, nofun⟩

theorem Linked.cons {link : Expr} {links : List Expr} (hlegible : link.Legible)
    (hsettled : link.Settled) (hchain : link.isChain = false) (hnegation : link.isNegation = false)
    (h : Linked links) : Linked (link :: links) where
  legible := List.forall_mem_cons.2 ⟨hlegible, h.legible⟩
  settled := List.forall_mem_cons.2 ⟨hsettled, h.settled⟩
  noChain := List.forall_mem_cons.2 ⟨hchain, h.noChain⟩
  led := by
    cases links with
    | nil => exact nofun
    | cons next links => exact List.forall_mem_cons.2 ⟨hnegation, h.led⟩

/-! ## Extension -/

/-- What comes of an expression with further links after it. -/
structure Extension (e : Expr) (more : List Expr) (f : Expr) : Prop where
  legible : f.Legible
  settled : f.Settled
  text : f.operandText.toList = e.operandText.toList ++ linksText more

/-- What comes of links with further links after them. -/
structure LinksExtension (links more extended : List Expr) : Prop where
  linked : Linked extended
  length : links.length ≤ extended.length
  begin : beginBracketed extended = beginBracketed links
  text : chainText extended = chainText links ++ linksText more

section Extension

variable {more : List Expr} (hmore : Linked more) (hne : more ≠ [])

include hmore

theorem linksExtension_singleton {link : Expr} (hlinked : Linked [link])
    (h : Extension link more (link.extend more)) :
    LinksExtension [link] more (extendLinks [link] more) := by
  have hlegible := hlinked.legible link List.mem_cons_self
  have hsettled := hlinked.settled link List.mem_cons_self
  have hchain := hlinked.noChain link List.mem_cons_self
  cases hnegation : link.isNegation with
  | false =>
    rw [extendLinks, hnegation, if_neg Bool.false_ne_true]
    refine ⟨.cons hlegible hsettled hchain hnegation hmore, Nat.le_add_left .., rfl, ?_⟩
    simp [chainText, linksText]
  | true =>
    rw [extendLinks, if_pos hnegation]
    cases link with
    | not operand =>
      refine ⟨.singleton h.legible h.settled rfl, Nat.le_refl 1, rfl, ?_⟩
      simpa [chainText, linksText] using h.text
    | _ => cases hnegation

theorem linksExtension {links : List Expr} (hlinks : links ≠ []) (hlinked : Linked links)
    (h : ∀ link ∈ links, Extension link more (link.extend more)) :
    LinksExtension links more (extendLinks links more) := by
  induction links with
  | nil => exact absurd rfl hlinks
  | cons link links ih =>
    cases links with
    | nil => exact linksExtension_singleton hmore hlinked (h link List.mem_cons_self)
    | cons next links =>
      obtain ⟨hlegible, hlegible'⟩ := List.forall_mem_cons.1 hlinked.legible
      obtain ⟨hsettled, hsettled'⟩ := List.forall_mem_cons.1 hlinked.settled
      obtain ⟨hchain, hchain'⟩ := List.forall_mem_cons.1 hlinked.noChain
      have hrest := ih (List.cons_ne_nil _ _) ⟨hlegible', hsettled', hchain', hlinked.led.tail⟩
        fun link hmem => h link (.tail _ hmem)
      have hextended : extendLinks (next :: links) more ≠ [] := by
        intro hnil
        have hlength := hrest.length
        rw [hnil] at hlength
        cases hlength
      rw [extendLinks]
      refine ⟨.cons hlegible hsettled hchain (hlinked.led link List.mem_cons_self) hrest.linked,
        Nat.succ_le_succ hrest.length, rfl, ?_⟩
      rw [chainText, chainText, List.append_assoc,
        linksText_of_chainText hextended (List.cons_ne_nil _ _) hrest.begin hrest.text]

include hne

theorem extension {e : Expr} (he : e.Legible) (hs : e.Settled) :
    Extension e more (e.extend more) := by
  induction e using of_children with
  | h e ih =>
  cases hchain : e.isChain with
  | true =>
    cases e with
    | chain links =>
      have hlinks : links ≠ [] := by
        rintro rfl
        cases he.own.1
      have hextended := linksExtension hmore hlinks (.of_chain he hs) fun link hmem =>
        ih link hmem (he.part hmem) (hs.part hmem)
      refine ⟨hextended.linked.legible_chain (Nat.le_trans he.own.1 hextended.length),
        hextended.linked.settled_chain, ?_⟩
      rw [extend, toList_operandText_chain, toList_operandText_chain, hextended.text]
    | _ => cases hchain
  | false =>
    cases hnegation : e.isNegation with
    | true =>
      cases e with
      | not operand =>
        have hextended := ih operand List.mem_cons_self (he.part List.mem_cons_self)
          (hs.part List.mem_cons_self)
        refine ⟨.mk trivial (List.forall_mem_singleton.2 hextended.legible),
          .mk trivial (List.forall_mem_singleton.2 hextended.settled), ?_⟩
        rw [extend, toList_operandText_not, toList_operandText_not, hextended.text,
          List.cons_append]
      | _ => cases hnegation
    | false =>
      rw [extend_of_link hchain hnegation]
      have hlinked := Linked.cons he hs hchain hnegation hmore
      have htwo : 2 ≤ (e :: more).length := Nat.succ_le_succ (List.length_pos_iff.2 hne)
      refine ⟨hlinked.legible_chain htwo, hlinked.settled_chain, ?_⟩
      rw [toList_operandText_chain, chainText]

end Extension

/-! ## Hoisting -/

/-- What hoisting comes to. -/
structure Hoisting (e f : Expr) : Prop where
  legible : f.Legible
  settled : f.Settled
  display : f.display = e.display
  infixed : f.isInfixed = e.isInfixed
  bracketed : f.isBracketed = e.isBracketed
  noChain : e.isChain = false → f.isChain = false

theorem Hoisting.operandText {e f : Expr} (h : Hoisting e f) : f.operandText = e.operandText := by
  rw [Expr.operandText, Expr.operandText, enclosed, enclosed, h.infixed, h.display]

/-- What hoisting the links of a chain comes to. -/
structure LinksHoisting (links hoisted : List Expr) : Prop where
  linked : Linked hoisted
  begin : beginBracketed hoisted = beginBracketed links
  text : chainText hoisted = chainText links

theorem hoistedLinks_ne_nil {links : List Expr} (h : links ≠ []) : hoistedLinks links ≠ [] := by
  cases links with
  | nil => exact absurd rfl h
  | cons link links =>
    obtain ⟨first, others, hlinks⟩ := exists_hoistedLinks link links
    rw [hlinks]
    exact List.cons_ne_nil _ _

theorem LinksHoisting.linksText {links : List Expr} (h : LinksHoisting links (hoistedLinks links))
    (hne : links ≠ []) : linksText (hoistedLinks links) = linksText links := by
  rw [← List.append_nil (Expr.linksText links)]
  refine linksText_of_chainText (hoistedLinks_ne_nil hne) hne h.begin ?_
  rw [h.text, List.append_nil]

theorem linksHoisting {links : List Expr} (hlinks : links ≠ [])
    (hchains : ∀ link ∈ links, link.isChain = false)
    (h : ∀ link ∈ links, Hoisting link link.hoisted) :
    LinksHoisting links (hoistedLinks links) := by
  induction links with
  | nil => exact absurd rfl hlinks
  | cons link links ih =>
    obtain ⟨hlink, hothers⟩ := List.forall_mem_cons.1 h
    obtain ⟨hchain, hchains'⟩ := List.forall_mem_cons.1 hchains
    have hsingle := Linked.singleton hlink.legible hlink.settled (hlink.noChain hchain)
    cases links with
    | nil =>
      refine ⟨hsingle, ?_, ?_⟩
      · simp [hoistedLinks, beginBracketed, hlink.bracketed]
      · rw [hoistedLinks, chainText, chainText, hlink.operandText]
    | cons next links =>
      have hne := List.cons_ne_nil next links
      have hrest := ih hne hchains' hothers
      have hextended := linksExtension_singleton hrest.linked hsingle
        (extension hrest.linked (hoistedLinks_ne_nil hne) hlink.legible hlink.settled)
      refine ⟨hextended.linked, ?_, ?_⟩
      · rw [hoistedLinks, hextended.begin]
        simp [beginBracketed, hlink.bracketed]
      · rw [hoistedLinks, hextended.text, hrest.linksText hne, chainText, chainText,
          hlink.operandText]
        simp [Expr.linksText]

theorem hoisting_chain {links : List Expr} (he : (chain links).Legible)
    (h : ∀ link ∈ links, Hoisting link link.hoisted) :
    Hoisting (chain links) (chain links).hoisted := by
  match links, he, h with
  | [], he, _ => cases he.own.1
  | [link], he, _ => exact absurd he.own.1 (by simp)
  | link :: next :: links, he, h =>
    obtain ⟨hlink, hothers⟩ := List.forall_mem_cons.1 h
    obtain ⟨hchain, hchains⟩ := List.forall_mem_cons.1 he.own.2
    have hne := List.cons_ne_nil next links
    have hrest := linksHoisting hne hchains hothers
    have hextended :=
      extension hrest.linked (hoistedLinks_ne_nil hne) hlink.legible hlink.settled
    rw [hoisted]
    refine ⟨hextended.legible, hextended.settled, ?_, isInfixed_extend .., isBracketed_extend ..,
      nofun⟩
    have hchainInfixed : (chain (link :: next :: links)).isInfixed = false := rfl
    rw [← operandText_of_not_infixed (isInfixed_extend ..),
      ← operandText_of_not_infixed hchainInfixed]
    refine String.toList_injective ?_
    rw [hextended.text, hrest.linksText hne, hlink.operandText, toList_operandText_chain, chainText]

theorem hoisting {e : Expr} (he : e.Legible) : Hoisting e e.hoisted := by
  induction e using of_children with
  | h e ih =>
  have hparts {part : Expr} (hmem : part ∈ e.children) : Hoisting part part.hoisted :=
    ih part hmem (he.part hmem)
  cases e with
  | const literal => exact ⟨he, .mk trivial nofun, rfl, rfl, rfl, id⟩
  | root => exact ⟨he, .mk trivial nofun, rfl, rfl, rfl, id⟩
  | source => exact ⟨he, .mk trivial nofun, rfl, rfl, rfl, id⟩
  | var name => exact ⟨he, .mk trivial nofun, rfl, rfl, rfl, id⟩
  | property name => exact ⟨he, .mk trivial nofun, rfl, rfl, rfl, id⟩
  | subscript s => exact ⟨he, .mk trivial nofun, rfl, rfl, rfl, id⟩
  | index key =>
    have hkey := hparts List.mem_cons_self
    refine ⟨.mk trivial (List.forall_mem_singleton.2 hkey.legible),
      .mk trivial (List.forall_mem_singleton.2 hkey.settled), ?_, rfl, rfl, id⟩
    rw [hoisted, Expr.display, Expr.display, hkey.display]
  | method name args =>
    rw [hoisted, hoistedAll_eq_map]
    refine ⟨.mk he.own (List.forall_mem_map.2 fun _ hmem => (hparts hmem).legible),
      .mk trivial (List.forall_mem_map.2 fun _ hmem => (hparts hmem).settled), ?_, rfl, rfl, id⟩
    have htexts : (args.map hoisted).map Expr.display = args.map Expr.display := by
      rw [List.map_map]
      exact List.map_congr_left fun _ hmem => (hparts hmem).display
    rw [Expr.display, Expr.display, displayAll_eq_map, displayAll_eq_map, htexts]
  | chain links => exact hoisting_chain he fun _ => hparts
  | not operand =>
    have hoperand := hparts List.mem_cons_self
    refine ⟨.mk trivial (List.forall_mem_singleton.2 hoperand.legible),
      .mk trivial (List.forall_mem_singleton.2 hoperand.settled), ?_, rfl, rfl, id⟩
    have htext := hoperand.operandText
    rw [Expr.operandText, Expr.operandText] at htext
    rw [hoisted, Expr.display, Expr.display, htext]
  | logical op operands =>
    rw [hoisted, hoistedAll_eq_map]
    have htwo : 2 ≤ (operands.map hoisted).length := by
      rw [List.length_map]
      exact he.own
    refine ⟨.mk htwo (List.forall_mem_map.2 fun _ hmem => (hparts hmem).legible),
      .mk trivial (List.forall_mem_map.2 fun _ hmem => (hparts hmem).settled), ?_, rfl, rfl, id⟩
    have htexts : (operands.map hoisted).map Expr.operandText = operands.map Expr.operandText := by
      rw [List.map_map]
      exact List.map_congr_left fun _ hmem => (hparts hmem).operandText
    rw [Expr.display, Expr.display, displayOperands_eq_map, displayOperands_eq_map, htexts]
  | compare op left right =>
    have hleft := hparts List.mem_cons_self
    have hright := hparts (List.mem_cons_of_mem _ List.mem_cons_self)
    refine ⟨.mk trivial (List.forall_mem_cons.2
        ⟨hleft.legible, List.forall_mem_singleton.2 hright.legible⟩),
      .mk trivial (List.forall_mem_cons.2
        ⟨hleft.settled, List.forall_mem_singleton.2 hright.settled⟩), ?_, rfl, rfl, id⟩
    have htext := hleft.operandText
    have htext' := hright.operandText
    rw [Expr.operandText, Expr.operandText] at htext htext'
    rw [hoisted, Expr.display, Expr.display, htext, htext']

/-! ## Settled expressions -/

theorem hoistedLinks_of_led {links : List Expr} (hled : Led links)
    (h : ∀ link ∈ links, link.hoisted = link) : hoistedLinks links = links := by
  induction links with
  | nil => rfl
  | cons link links ih =>
    obtain ⟨hlink, hothers⟩ := List.forall_mem_cons.1 h
    cases links with
    | nil => rw [hoistedLinks, hlink]
    | cons next links =>
      rw [hoistedLinks, ih hled.tail hothers, hlink, extendLinks, hled link List.mem_cons_self,
        if_neg Bool.false_ne_true]

theorem hoistedAll_of_forall {es : List Expr} (h : ∀ e ∈ es, e.hoisted = e) :
    hoistedAll es = es := by
  rw [hoistedAll_eq_map]
  exact (List.map_congr_left h).trans (List.map_id' es)

theorem hoisted_chain_of_settled {links : List Expr} (he : (chain links).Legible)
    (hs : (chain links).Settled) (h : ∀ link ∈ links, link.hoisted = link) :
    (chain links).hoisted = chain links := by
  match links, he, hs, h with
  | [], he, _, _ => cases he.own.1
  | [link], he, _, _ => exact absurd he.own.1 (by simp)
  | link :: next :: links, he, hs, h =>
    have hled : Led (link :: next :: links) := hs.own
    obtain ⟨hlink, hothers⟩ := List.forall_mem_cons.1 h
    rw [hoisted, hoistedLinks_of_led hled.tail hothers, hlink,
      extend_of_link (he.own.2 link List.mem_cons_self) (hled link List.mem_cons_self)]

theorem hoisted_of_settled {e : Expr} (he : e.Legible) (hs : e.Settled) : e.hoisted = e := by
  induction e using of_children with
  | h e ih =>
  have hparts {part : Expr} (hmem : part ∈ e.children) : part.hoisted = part :=
    ih part hmem (he.part hmem) (hs.part hmem)
  cases e with
  | index key => rw [hoisted, hparts List.mem_cons_self]
  | method name args =>
    have hargs : hoistedAll args = args := hoistedAll_of_forall fun _ => hparts
    rw [hoisted, hargs]
  | chain links => exact hoisted_chain_of_settled he hs fun _ => hparts
  | not operand => rw [hoisted, hparts List.mem_cons_self]
  | logical op operands =>
    have hoperands : hoistedAll operands = operands := hoistedAll_of_forall fun _ => hparts
    rw [hoisted, hoperands]
  | compare op left right =>
    rw [hoisted, hparts List.mem_cons_self, hparts (List.mem_cons_of_mem _ List.mem_cons_self)]
  | _ => rfl

/-- Hoisting changes what is not settled and nothing else. -/
theorem settled_iff_hoisted_eq {e : Expr} (he : e.Legible) : e.Settled ↔ e.hoisted = e := by
  refine ⟨hoisted_of_settled he, fun h => ?_⟩
  rw [← h]
  exact (hoisting he).settled

theorem display_eq_iff_hoisted_eq {a b : Expr} (ha : a.Legible) (hb : b.Legible) :
    a.display = b.display ↔ a.hoisted = b.hoisted := by
  have ha' := hoisting ha
  have hb' := hoisting hb
  rw [← ha'.display, ← hb'.display]
  exact ⟨eq_of_display_eq ha'.legible hb'.legible ha'.settled hb'.settled, fun h => by rw [h]⟩

end Expr

/-- Two legible expressions have the same text exactly when hoisting makes them the same tree; where
no negation stands before the last link of a chain they are the same tree already. Under an operator
and in a chain every operator but a negation stands in parentheses. -/
theorem display_identifies_hoisted_expressions :
    (∀ a b : Expr, a.Legible → b.Legible →
      (a.display = b.display ↔ a.hoisted = b.hoisted) ∧
      (a.Settled → b.Settled → a.display = b.display → a = b)) ∧
    ∀ e part : Expr, e.operator?.isSome = true ∨ e.isChain = true → part ∈ e.children →
      part.isInfixed = true → Text.contains e.display ("(" ++ part.display ++ ")") = true := by
  constructor
  · intro a b ha hb
    have hiff := Expr.display_eq_iff_hoisted_eq ha hb
    refine ⟨hiff, fun has hbs h => ?_⟩
    rw [← (Expr.settled_iff_hoisted_eq ha).1 has, ← (Expr.settled_iff_hoisted_eq hb).1 hbs]
    exact hiff.1 h
  · intro e part he hmem hinfixed
    rw [Text.contains_iff, ← Expr.operandText_of_infixed hinfixed]
    exact Expr.infix_display he hmem

namespace Expr

/-- A chain whose first link is a negation. -/
def negatedLink : Expr := chain [not (property "a"), property "b"]

/-- The negation of a chain. -/
def negatedChain : Expr := not (chain [property "a", property "b"])

theorem legible_property_a : (property "a").Legible :=
  .mk ⟨by decide, List.all_eq_true.1 rfl, by rintro _ ⟨⟩; rfl, by decide⟩ nofun

theorem legible_property_b : (property "b").Legible :=
  .mk ⟨by decide, List.all_eq_true.1 rfl, by rintro _ ⟨⟩; rfl, by decide⟩ nofun

theorem legible_negatedLink : negatedLink.Legible := by
  refine .mk ⟨by decide, by simp [isChain]⟩ (List.forall_mem_cons.2 ⟨?_, ?_⟩)
  · exact .mk trivial (List.forall_mem_singleton.2 legible_property_a)
  · exact List.forall_mem_singleton.2 legible_property_b

theorem legible_negatedChain : negatedChain.Legible := by
  refine .mk trivial (List.forall_mem_singleton.2 (.mk ⟨by decide, by simp [isChain]⟩ ?_))
  exact List.forall_mem_cons.2
    ⟨legible_property_a, List.forall_mem_singleton.2 legible_property_b⟩

theorem settled_property (name : String) : (property name).Settled :=
  .mk trivial (List.forall_mem_nil _)

theorem settled_negatedChain : negatedChain.Settled := by
  refine .mk trivial (List.forall_mem_singleton.2 (.mk (List.forall_mem_singleton.2 rfl) ?_))
  exact List.forall_mem_cons.2
    ⟨settled_property "a", List.forall_mem_singleton.2 (settled_property "b")⟩

end Expr

open ObjectGraph.Expr (negatedLink negatedChain)

/-- The text does not tell whether a negation ends before the next link. -/
theorem negated_link_prints_as_negated_chain :
    negatedLink.Legible ∧ negatedChain.Legible ∧ negatedLink.display = "!a.b" ∧
      negatedLink.display = negatedChain.display ∧ negatedLink ≠ negatedChain :=
  ⟨Expr.legible_negatedLink, Expr.legible_negatedChain, by decide +kernel, by decide +kernel, nofun⟩

theorem display_identifies_negatedLink :
    negatedLink.hoisted = negatedChain.hoisted ∧
      (Expr.property "a").display ≠ negatedChain.display ∧
      Text.contains (Expr.not (.logical .and [.root, .source])).display
        ("(" ++ (Expr.logical .and [.root, .source]).display ++ ")") = true := by
  obtain ⟨hidentifies, hparentheses⟩ := display_identifies_hoisted_expressions
  refine ⟨?_, fun h => ?_, ?_⟩
  · exact (hidentifies _ _ Expr.legible_negatedLink Expr.legible_negatedChain).1.1
      (by decide +kernel)
  · have hsame := (hidentifies _ _ Expr.legible_property_a Expr.legible_negatedChain).2
      (Expr.settled_property "a") Expr.settled_negatedChain h
    cases hsame
  · exact hparentheses (.not (.logical .and [.root, .source])) _ (.inl rfl) List.mem_cons_self rfl

end ObjectGraph
