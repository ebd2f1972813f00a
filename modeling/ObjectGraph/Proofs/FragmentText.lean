import ObjectGraph.Fragment

/-!
# How the text of a fragment begins

Every fragment but the blank one begins with one of a few fixed texts. They tell native truth
values from values, and they are never white space, so only the blank fragment has a blank text.
-/
namespace ObjectGraph

/-- The texts with which native truth values begin. -/
def nativeLeads : List String :=
  ["true", "false", "(!::ogel_lang::ops::", "::ogel_lang::ops::equals("]

/-- The text of a native truth value: a literal, a negation or a comparison. -/
def NativeText (text : String) : Prop :=
  text = "true" ∨ text = "false" ∨ "(!::ogel_lang::ops::".toList <+: text.toList ∨
    "::ogel_lang::ops::equals(".toList <+: text.toList

instance (text : String) : Decidable (NativeText text) :=
  inferInstanceAs (Decidable (_ ∨ _ ∨ _ ∨ _))

theorem NativeText.exists_lead {text : String} (h : NativeText text) :
    ∃ lead ∈ nativeLeads, lead.toList <+: text.toList := by
  rcases h with rfl | rfl | h | h
  · exact ⟨"true", by decide, List.prefix_rfl⟩
  · exact ⟨"false", by decide, List.prefix_rfl⟩
  · exact ⟨"(!::ogel_lang::ops::", by decide, h⟩
  · exact ⟨"::ogel_lang::ops::equals(", by decide, h⟩

/-- Neither is the beginning of the other. -/
def Clash (s t : String) : Prop := ¬ s.toList <+: t.toList ∧ ¬ t.toList <+: s.toList

instance (s t : String) : Decidable (Clash s t) := inferInstanceAs (Decidable (_ ∧ _))

theorem not_nativeText_of_clash {lead text : String} (hlead : lead.toList <+: text.toList)
    (h : ∀ native ∈ nativeLeads, Clash lead native) : ¬ NativeText text := by
  intro hnative
  obtain ⟨native, hmem, hprefix⟩ := hnative.exists_lead
  rcases List.prefix_or_prefix_of_prefix hlead hprefix with hle | hle
  · exact (h native hmem).1 hle
  · exact (h native hmem).2 hle

namespace Fragment

/-- The fragments that are native truth values; all others but the blank one are values. -/
def isNative : Fragment → Bool
  | truth _ => true
  | not _ => true
  | equal _ _ => true
  | differ _ _ => true
  | _ => false

/-- The fragments to navigate from. -/
def isPlace : Fragment → Bool
  | rootPlace => true
  | targetPlace => true
  | group _ => true
  | _ => false

/-- If the fragment is a clone, it is one of a place. -/
def clonesPlace : Fragment → Bool
  | clone place => place.isPlace
  | _ => true

/-- The fixed text with which a fragment begins. -/
def lead : Fragment → String
  | blank => ""
  | truth b => Value.booleanText b
  | rootPlace => "root"
  | targetPlace => "target"
  | group _ => "("
  | clone blank => "."
  | clone place => place.lead
  | var _ => runtime
  | property _ _ => runtime
  | index _ _ => runtime
  | subscript _ _ => runtime
  | call _ _ _ => runtime
  | not _ => "(!::ogel_lang::ops::"
  | guard _ _ _ => "\x7b let v = "
  | equal _ _ => "::ogel_lang::ops::equals("
  | differ _ _ => "(!::ogel_lang::ops::"
  | _ => valueType

def leads : List String :=
  [".", "true", "false", "root", "target", "(", runtime, valueType, "(!::ogel_lang::ops::",
    "\x7b let v = ", "::ogel_lang::ops::equals("]

theorem begins_append {s t : String} (h : s.toList <+: t.toList) (rest : String) :
    s.toList <+: (t ++ rest).toList := by
  rw [String.toList_append]
  exact h.trans (List.prefix_append _ _)

theorem render_begins (f : Fragment) : f.lead.toList <+: f.render.toList := by
  cases f with
  | blank => exact List.prefix_rfl
  | truth b => exact List.prefix_rfl
  | rootPlace => exact List.prefix_rfl
  | targetPlace => exact List.prefix_rfl
  | nullValue => decide
  | clone place =>
    have h := begins_append (render_begins place) ".clone()"
    cases place with
    | blank => decide
    | _ => exact h
  | not operand => simp [render, lead, ops]
  | differ left right => simp [render, lead, ops]
  | equal left right => simp [render, lead, ops]
  | _ =>
    simp only [render, boxedText, String.toList_append, List.append_assoc]
    exact List.prefix_append _ _

theorem lead_mem (f : Fragment) (h : f ≠ blank) : f.lead ∈ leads := by
  cases f with
  | blank => exact absurd rfl h
  | truth b => cases b <;> decide
  | clone place =>
    by_cases hplace : place = blank
    · rw [hplace]
      decide
    · have hmem := lead_mem place hplace
      cases place with
      | blank => exact absurd rfl hplace
      | _ => exact hmem
  | _ => simp [lead, leads]

/-- A fragment begins with a character that is neither white space nor a negation. -/
theorem exists_head (f : Fragment) (h : f ≠ blank) :
    ∃ c rest, f.render.toList = c :: rest ∧ Text.isSpace c = false ∧ c ≠ '!' := by
  have hleads : ∀ lead ∈ leads, ∃ c ∈ lead.toList.head?, Text.isSpace c = false ∧ c ≠ '!' := by
    simp [leads, runtime, valueType, Text.isSpace]
  obtain ⟨c, hc, hspace, hbang⟩ := hleads f.lead (f.lead_mem h)
  obtain ⟨tail, htail⟩ := f.render_begins
  obtain ⟨rest, hrest⟩ := List.head?_eq_some_iff.1 hc
  refine ⟨c, rest ++ tail, ?_, hspace, hbang⟩
  rw [← htail, hrest, List.cons_append]

theorem isBlank_render (f : Fragment) : Text.isBlank f.render = true ↔ f = blank := by
  constructor
  · intro hblank
    by_cases h : f = blank
    · exact h
    · obtain ⟨c, rest, hrender, hspace, -⟩ := f.exists_head h
      simp [Text.isBlank, hrender, hspace] at hblank
  · rintro rfl
    rfl

/-- What stands in parentheses does not begin with a negation sign. -/
theorem not_nativeText_of_group (f : Fragment) {text : String}
    (htext : (group f).render.toList <+: text.toList) : ¬ NativeText text := by
  have hhead : ∃ c rest, (f.render ++ ")").toList = c :: rest ∧ c ≠ '!' := by
    by_cases h : f = blank
    · subst h
      exact ⟨')', [], rfl, by decide⟩
    · obtain ⟨c, rest, hrender, -, hbang⟩ := f.exists_head h
      exact ⟨c, rest ++ [')'], by rw [String.toList_append, hrender]; rfl, hbang⟩
  obtain ⟨c, rest, hcons, hbang⟩ := hhead
  have hlead : (String.ofList ['(', c]).toList <+: text.toList := by
    refine List.IsPrefix.trans ⟨rest, ?_⟩ htext
    change _ = ("(" ++ f.render ++ ")").toList
    rw [String.append_assoc, String.toList_append, hcons, String.toList_ofList]
    rfl
  refine not_nativeText_of_clash hlead ?_
  intro native hmem
  simp only [nativeLeads, List.mem_cons, List.not_mem_nil, or_false] at hmem
  rcases hmem with rfl | rfl | rfl | rfl <;> simp [Clash, hbang, Ne.symm hbang]

theorem nativeText_render {f : Fragment} (hf : f.isNative = true) : NativeText f.render := by
  have hlead := f.render_begins
  cases f with
  | truth b => cases b <;> decide
  | not operand => exact .inr (.inr (.inl hlead))
  | differ left right => exact .inr (.inr (.inl hlead))
  | equal left right => exact .inr (.inr (.inr hlead))
  | _ => cases hf

/-- The texts of values are told from those of native truth values by how they begin. -/
theorem not_nativeText_render {f : Fragment} (hclone : f.clonesPlace = true)
    (hf : f.isNative = false) : ¬ NativeText f.render := by
  have hlead := f.render_begins
  have hvalue : ∀ native ∈ nativeLeads, Clash valueType native := by decide
  have hruntime : ∀ native ∈ nativeLeads, Clash runtime native := by decide
  have hguard : ∀ native ∈ nativeLeads, Clash "\x7b let v = " native := by decide
  cases f with
  | truth b => cases hf
  | not operand => cases hf
  | equal left right => cases hf
  | differ left right => cases hf
  | group f => exact not_nativeText_of_group f List.prefix_rfl
  | clone place =>
    cases place with
    | rootPlace => decide
    | targetPlace => decide
    | group f => exact not_nativeText_of_group f (begins_append List.prefix_rfl _)
    | _ => cases hclone
  | blank => decide
  | rootPlace => decide
  | targetPlace => decide
  | guard op first rest => exact not_nativeText_of_clash hlead hguard
  | var name => exact not_nativeText_of_clash hlead hruntime
  | property place name => exact not_nativeText_of_clash hlead hruntime
  | index place key => exact not_nativeText_of_clash hlead hruntime
  | subscript place s => exact not_nativeText_of_clash hlead hruntime
  | call place name args => exact not_nativeText_of_clash hlead hruntime
  | _ => exact not_nativeText_of_clash hlead hvalue

theorem nativeText_render_iff {f : Fragment} (hclone : f.clonesPlace = true) :
    NativeText f.render ↔ f.isNative = true := by
  cases hf : f.isNative with
  | true => simp [nativeText_render hf]
  | false => simp [not_nativeText_render hclone hf]

theorem asValue_of_ne_blank {f : Fragment} (h : f ≠ blank) (hint : Option TypeHint) :
    f.asValue hint = if hint = some .boolean then boxed f else f := by
  cases f with
  | blank => exact absurd rfl h
  | _ => rfl

theorem orNull_of_ne_blank {f : Fragment} (h : f ≠ blank) : f.orNull = f := by
  cases f with
  | blank => exact absurd rfl h
  | _ => rfl

end Fragment

namespace Routine

/-- A routine boxes its fragment just as a value operand does. -/
theorem body_render (f : Fragment) (hint : Option TypeHint) :
    body f.render hint = (f.asValue hint).render := by
  by_cases hblank : f = .blank
  · subst hblank
    rfl
  · have htext : ¬ Text.isBlank f.render = true := fun h => hblank (f.isBlank_render.1 h)
    rw [body, if_neg htext, Fragment.asValue_of_ne_blank hblank hint]
    split
    · rfl
    · rfl

end Routine
end ObjectGraph
