import Mathlib.Data.List.Nodup
import ObjectGraph.Proofs.EqualValues
import ObjectGraph.Proofs.NumeralCharacters
import ObjectGraph.Proofs.TextCuts
import ObjectGraph.Value.Display

/-!
# Text of discrete values

Without doubles and host objects, the text of a value tells the value. Its first character tells
the kind, and from there each text can be cut off what follows it: a numeral before another
character, a string behind its last quote, an array and a map behind the bracket that closes them.
A map is its entries in key order, so neither it nor its text keeps the order of the insertions.
-/
namespace ObjectGraph

open Json.Reader (isNumeralChar)

namespace Entries

variable {α : Type} {bound : Option String}

/-- A map is what is found in it. -/
theorem eq_of_find?_eq {entries others : Entries α bound}
    (h : ∀ key, entries.find? key = others.find? key) : entries = others := by
  induction entries with
  | nil =>
    cases others with
    | nil => rfl
    | cons key value above rest => simpa [find?] using h key
  | cons key value above rest ih =>
    cases others with
    | nil => simpa [find?] using h key
    | cons key' value' above' rest' =>
      have hkey : key = key' := by
        by_contra hne
        have hbefore : key < key' := by
          have hfind := h key'
          simp only [find?, if_true, if_neg (Ne.symm hne)] at hfind
          exact (above_some _ _).1 (above_of_mem_keys (mem_keys_iff.2 ⟨_, hfind⟩))
        have hafter : key' < key := by
          have hfind := (h key).symm
          simp only [find?, if_true, if_neg hne] at hfind
          exact (above_some _ _).1 (above_of_mem_keys (mem_keys_iff.2 ⟨_, hfind⟩))
        exact String.lt_irrefl _ (String.lt_trans hbefore hafter)
      subst hkey
      have hvalue := h key
      simp only [find?, if_true, Option.some.injEq] at hvalue
      have hrest : rest = rest' := ih fun wanted => by
        by_cases hwanted : wanted = key
        · rw [hwanted, find?_bound, find?_bound]
        · simpa only [find?, if_neg hwanted] using h wanted
      rw [hvalue, hrest]

theorem toList_injective {entries others : Entries α bound} (h : entries.toList = others.toList) :
    entries = others := by
  induction entries with
  | nil =>
    cases others with
    | nil => rfl
    | cons => cases h
  | cons key value above rest ih =>
    cases others with
    | nil => cases h
    | cons key' value' above' rest' =>
      obtain ⟨hentry, hrest⟩ := List.cons.inj h
      cases hentry
      rw [ih hrest]

end Entries

namespace Dict

variable {α : Type}

theorem insert_comm (dict : Dict α) {key other : String} (hne : key ≠ other) (value value' : α) :
    (dict.insert key value).insert other value' = (dict.insert other value').insert key value := by
  refine Entries.eq_of_find?_eq fun wanted => ?_
  simp only [find?_insert]
  by_cases hkey : wanted = key
  · simp [hkey, hne]
  · simp [hkey]

/-- Entries of different keys make the same map in any order. -/
theorem ofList_perm {pairs others : List (String × α)} (h : pairs.Perm others)
    (hnodup : (pairs.map Prod.fst).Nodup) : ofList pairs = ofList others := by
  refine h.foldl_eq' (fun p hp q hq dict => ?_) empty
  by_cases hkey : p.1 = q.1
  · rw [List.inj_on_of_nodup_map hnodup hp hq hkey]
  · exact dict.insert_comm hkey p.2 q.2

end Dict

namespace Value

mutual
/-- No double and no host object at any depth. -/
def isDiscrete : Value → Bool
  | float _ => false
  | object _ => false
  | array items => discreteItems items
  | map entries => discreteEntries entries
  | _ => true
termination_by structural v => v

def discreteItems : List Value → Bool
  | [] => true
  | item :: items => item.isDiscrete && discreteItems items
termination_by structural items => items

def discreteEntries {bound : Option String} : Entries Value bound → Bool
  | .nil => true
  | .cons _ value _ rest => value.isDiscrete && discreteEntries rest
termination_by structural entries => entries
end

theorem isDiscrete_array_iff {items : List Value} :
    (array items).isDiscrete = true ↔ ∀ v ∈ items, v.isDiscrete = true := by
  rw [isDiscrete]
  induction items with
  | nil => simp [discreteItems]
  | cons item items ih => simp [discreteItems, ih]

theorem isDiscrete_map_iff {entries : Dict Value} :
    (map entries).isDiscrete = true ↔ ∀ entry ∈ entries.toList, entry.2.isDiscrete = true := by
  have hentries {bound : Option String} (entries : Entries Value bound) :
      discreteEntries entries = true ↔ ∀ entry ∈ entries.toList, entry.2.isDiscrete = true := by
    induction entries with
    | nil => simp [discreteEntries]
    | cons key value above rest ih => simp [discreteEntries, ih]
  exact hentries entries

/-! ## Equality -/

theorem not_holdsNaN_of_isDiscrete {v : Value} (hv : v.isDiscrete = true) : ¬ v.HoldsNaN := by
  intro h
  induction h with
  | float => cases hv
  | item hmem _ ih => exact ih (isDiscrete_array_iff.1 hv _ hmem)
  | entry hfind _ ih => exact ih (isDiscrete_map_iff.1 hv _ (Entries.mem_toList_iff.2 hfind))

theorem eq_of_equalItems {as bs : List Value}
    (hitems : ∀ a ∈ as, ∀ b ∈ bs, a.equals b = true → a = b) (h : equalItems as bs = true) :
    as = bs := by
  induction as generalizing bs with
  | nil =>
    cases bs with
    | nil => rfl
    | cons b bs => cases h
  | cons a as ih =>
    cases bs with
    | nil => cases h
    | cons b bs =>
      rw [equalItems, Bool.and_eq_true] at h
      obtain rfl := hitems a List.mem_cons_self b List.mem_cons_self h.1
      rw [ih (fun a ha b hb => hitems a (.tail _ ha) b (.tail _ hb)) h.2]

/-- As many entries and an equal value at each key leave no room for another key. -/
theorem eq_of_map_equals {as bs : Dict Value}
    (hvalues : ∀ key a b, as.find? key = some a → bs.find? key = some b → a.equals b = true → a = b)
    (h : (map as).equals (map bs) = true) : as = bs := by
  obtain ⟨hsize, hpartner⟩ := map_equals_iff.1 h
  have hpartner' (key : String) (a : Value) (ha : as.find? key = some a) :
      bs.find? key = some a := by
    obtain ⟨b, hb, hequal⟩ := hpartner key a ha
    rw [hvalues key a b ha hb hequal, hb]
  have hsubset : as.keys ⊆ bs.keys := fun key hkey => by
    obtain ⟨a, ha⟩ := Entries.mem_keys_iff.1 hkey
    exact Entries.mem_keys_iff.2 ⟨a, hpartner' key a ha⟩
  refine Entries.eq_of_find?_eq fun key => ?_
  cases hfind : as.find? key with
  | some a => exact (hpartner' key a hfind).symm
  | none =>
    refine (Entries.find?_eq_none_of_not_mem fun hkey => ?_).symm
    obtain ⟨a, ha⟩ := Entries.mem_keys_iff.1 (Entries.keys_subset_of_size_eq hsize hsubset hkey)
    rw [hfind] at ha
    cases ha

theorem eq_of_equals {a b : Value} (ha : a.isDiscrete = true) (hb : b.isDiscrete = true)
    (h : a.equals b = true) : a = b := by
  induction a using nested_induction generalizing b with
  | null =>
    cases b with
    | null => rfl
    | _ => cases h
  | boolean x =>
    cases b with
    | boolean y => simpa [equals] using h
    | _ => cases h
  | integer m =>
    cases b with
    | integer n => simpa [equals] using h
    | float y => cases hb
    | _ => cases h
  | float x => cases ha
  | string s =>
    cases b with
    | string t => simpa [equals] using h
    | _ => cases h
  | array as ih =>
    cases b with
    | array bs =>
      rw [isDiscrete_array_iff] at ha hb
      rw [eq_of_equalItems (fun a hmem b hmem' => ih a hmem (ha a hmem) (hb b hmem')) h]
    | _ => cases h
  | map as ih =>
    cases b with
    | map bs =>
      rw [isDiscrete_map_iff] at ha hb
      rw [eq_of_map_equals (fun key a b hfind hfind' =>
        ih key a hfind (ha _ (Entries.mem_toList_iff.2 hfind))
          (hb _ (Entries.mem_toList_iff.2 hfind'))) h]
    | _ => cases h
  | object o => cases ha

theorem equals_iff_eq {a b : Value} (ha : a.isDiscrete = true) (hb : b.isDiscrete = true) :
    a.equals b = true ↔ a = b := by
  refine ⟨eq_of_equals ha hb, ?_⟩
  rintro rfl
  exact (equals_self_iff a).2 (not_holdsNaN_of_isDiscrete ha)

/-! ## The first character -/

/-- The kind of value whose text begins so. -/
def kindOf (c : Char) : TypeHint :=
  if isNumeralChar c then .integer
  else if c = 'n' then .null
  else if c = 't' ∨ c = 'f' then .boolean
  else if c = '"' then .string
  else if c = '[' then .array
  else if c = '\x7b' then .map
  else .dynamic

theorem toList_bracketed (left right : String) (parts : List String) :
    (bracketed left right parts).toList =
      left.toList ++ ((Text.joined ", " parts).toList ++ right.toList) := by
  rw [bracketed, String.toList_append, String.toList_append, List.append_assoc]

theorem exists_display {v : Value} (hv : v.isDiscrete = true) :
    ∃ c rest, v.display.toList = c :: rest ∧ kindOf c = v.typeHint := by
  cases v with
  | null => exact ⟨'n', _, rfl, rfl⟩
  | boolean b =>
    cases b with
    | false => exact ⟨'f', _, rfl, rfl⟩
    | true => exact ⟨'t', _, rfl, rfl⟩
  | integer n =>
    cases htext : (toString n.toInt).toList with
    | nil =>
      have hread := Json.Numeral.read?_integer n
      rw [htext] at hread
      cases hread
    | cons c rest =>
      refine ⟨c, rest, htext, ?_⟩
      rw [kindOf, if_pos (Text.isNumeral_integer n.toInt c (htext ▸ List.mem_cons_self))]
      rfl
  | float x => cases hv
  | string s => exact ⟨'"', _, String.toList_ofList, rfl⟩
  | array items => exact ⟨'[', _, toList_bracketed .., rfl⟩
  | map entries => exact ⟨'\x7b', _, toList_bracketed .., rfl⟩
  | object o => cases hv

theorem typeHint_eq {a b : Value} (ha : a.isDiscrete = true) (hb : b.isDiscrete = true)
    {r s : List Char} (h : a.display.toList ++ r = b.display.toList ++ s) :
    a.typeHint = b.typeHint := by
  obtain ⟨c, x, hc, hkind⟩ := exists_display ha
  obtain ⟨d, y, hd, hkind'⟩ := exists_display hb
  rw [hc, hd] at h
  rw [← hkind, ← hkind', (List.cons.inj h).1]

/-! ## The rest -/

theorem displayItems_eq_map (items : List Value) : displayItems items = items.map display := by
  induction items with
  | nil => rfl
  | cons item items ih => rw [displayItems, ih, List.map_cons]

def displayEntry (entry : String × Value) : String :=
  Text.quote entry.1 ++ ": " ++ entry.2.display

theorem exists_displayEntry (entry : String × Value) :
    ∃ rest, (displayEntry entry).toList = '"' :: rest := by
  simp only [displayEntry, Text.quote, String.toList_append, String.toList_ofList, List.cons_append,
    List.cons.injEq, true_and]
  exact ⟨_, rfl⟩

theorem displayEntries_eq_map {bound : Option String} (entries : Entries Value bound) :
    displayEntries entries = entries.toList.map displayEntry := by
  induction entries with
  | nil => rfl
  | cons key value above rest ih =>
    rw [displayEntries, ih, Entries.toList_cons, List.map_cons, displayEntry]

open Text (Cuts Ends)

theorem bracketed_cut {α : Type} {text : α → String} {left right : String} {close : Char}
    {as bs : List α} {r s : List Char} (hright : right.toList = [close])
    (hclose : isNumeralChar close = false) (hcomma : ',' ≠ close)
    (hcuts : ∀ a ∈ as, ∀ b ∈ bs, Cuts text (Ends isNumeralChar) a b)
    (has : ∀ a ∈ as, ∃ c rest, (text a).toList = c :: rest ∧ c ≠ close)
    (hbs : ∀ b ∈ bs, ∃ c rest, (text b).toList = c :: rest ∧ c ≠ close)
    (h : (bracketed left right (as.map text)).toList ++ r =
      (bracketed left right (bs.map text)).toList ++ s) : as = bs ∧ r = s := by
  have hpart {part : String} (hpart : ∃ c rest, part.toList = c :: rest ∧ c ≠ close)
      (x y : List Char) : part.toList ++ x ≠ close :: y := by
    obtain ⟨c, rest, htext, hne⟩ := hpart
    intro h
    rw [htext] at h
    exact hne (List.cons.inj h).1
  have hseparator (x y : List Char) : ", ".toList ++ x ≠ close :: y := fun h =>
    hcomma (List.cons.inj h).1
  simp only [toList_bracketed, hright, List.append_assoc, List.append_cancel_left_eq,
    List.singleton_append] at h
  obtain ⟨rfl, hrest⟩ := Text.joined_cut hcuts (fun x => Text.ends_cons rfl)
    (Text.ends_cons hclose) (Text.ends_cons hclose) (fun x => hseparator x r)
    (fun x => hseparator x s) (fun a ha x => hpart (has a ha) x s)
    (fun b hb x => hpart (hbs b hb) x r) h
  exact ⟨rfl, (List.cons.inj hrest).2⟩

/-- A key is cut off behind its last quote, and the value after it as values are. -/
theorem cuts_displayEntry {p q : String × Value}
    (h : Cuts display (Ends isNumeralChar) p.2 q.2) :
    Cuts displayEntry (Ends isNumeralChar) p q := by
  intro r s hr hs htext
  simp only [displayEntry, String.toList_append, List.append_assoc] at htext
  obtain ⟨hkey, hvalue⟩ := Text.quote_cut htext
  obtain ⟨hvalue, hrest⟩ := h r s hr hs (List.append_cancel_left hvalue)
  exact ⟨Prod.ext hkey hvalue, hrest⟩

/-- Before a character that continues no numeral, no text of a value goes on as another one. -/
theorem cuts_display {a b : Value} (ha : a.isDiscrete = true) (hb : b.isDiscrete = true) :
    Cuts display (Ends isNumeralChar) a b := by
  induction a using nested_induction generalizing b with
  | null =>
    intro r s hr hs h
    cases b with
    | null => exact ⟨rfl, List.append_cancel_left h⟩
    | _ => cases typeHint_eq ha hb h
  | boolean x =>
    intro r s hr hs h
    cases b with
    | boolean y =>
      cases x <;> cases y
      · exact ⟨rfl, List.append_cancel_left h⟩
      · cases h
      · cases h
      · exact ⟨rfl, List.append_cancel_left h⟩
    | _ => cases typeHint_eq ha hb h
  | integer m =>
    intro r s hr hs h
    cases b with
    | integer n =>
      obtain ⟨htext, hrest⟩ := Text.run_cut (Text.isNumeral_integer m.toInt)
        (Text.isNumeral_integer n.toInt) hr hs h
      have hread := Json.Numeral.read?_integer m
      rw [htext, Json.Numeral.read?_integer n, Option.some.injEq,
        Json.Number.integer.injEq] at hread
      exact ⟨by rw [hread], hrest⟩
    | _ => cases typeHint_eq ha hb h
  | float x => cases ha
  | string x =>
    intro r s hr hs h
    cases b with
    | string y =>
      obtain ⟨rfl, hrest⟩ := Text.quote_cut h
      exact ⟨rfl, hrest⟩
    | _ => cases typeHint_eq ha hb h
  | array as ih =>
    intro r s hr hs h
    cases b with
    | array bs =>
      rw [isDiscrete_array_iff] at ha hb
      have hfirst {v : Value} (hv : v.isDiscrete = true) :
          ∃ c rest, v.display.toList = c :: rest ∧ c ≠ ']' := by
        obtain ⟨c, rest, htext, hkind⟩ := exists_display hv
        refine ⟨c, rest, htext, ?_⟩
        rintro rfl
        cases v <;> cases hkind
      rw [display, display, displayItems_eq_map, displayItems_eq_map] at h
      obtain ⟨rfl, hrest⟩ := bracketed_cut rfl rfl (by decide)
        (fun a hmem b hmem' => ih a hmem (ha a hmem) (hb b hmem'))
        (fun a hmem => hfirst (ha a hmem)) (fun b hmem => hfirst (hb b hmem)) h
      exact ⟨rfl, hrest⟩
    | _ => cases typeHint_eq ha hb h
  | map as ih =>
    intro r s hr hs h
    cases b with
    | map bs =>
      rw [isDiscrete_map_iff] at ha hb
      have hfirst (entry : String × Value) :
          ∃ c rest, (displayEntry entry).toList = c :: rest ∧ c ≠ '\x7d' := by
        obtain ⟨rest, htext⟩ := exists_displayEntry entry
        exact ⟨'"', rest, htext, by decide⟩
      rw [display, display, displayEntries_eq_map, displayEntries_eq_map] at h
      obtain ⟨hentries, hrest⟩ := bracketed_cut rfl rfl (by decide)
        (fun p hmem q hmem' => cuts_displayEntry
          (ih p.1 p.2 (Entries.mem_toList_iff.1 hmem) (ha p hmem) (hb q hmem')))
        (fun p _ => hfirst p) (fun q _ => hfirst q) h
      exact ⟨by rw [Entries.toList_injective hentries], hrest⟩
    | _ => cases typeHint_eq ha hb h
  | object o => cases ha

theorem display_inj {a b : Value} (ha : a.isDiscrete = true) (hb : b.isDiscrete = true) :
    a.display = b.display ↔ a = b := by
  refine ⟨fun h => ?_, fun h => by rw [h]⟩
  exact (cuts_display ha hb [] [] Text.ends_nil Text.ends_nil (by rw [h])).1

end Value

/-- Values without doubles and host objects have the same text exactly when they are equal, and
the text of a map does not depend on the order in which its entries were put in. -/
theorem display_identifies_discrete_values :
    (∀ a b : Value, a.isDiscrete = true → b.isDiscrete = true →
      (a.display = b.display ↔ a.equals b = true)) ∧
    ∀ pairs others : List (String × Value), pairs.Perm others → (pairs.map Prod.fst).Nodup →
      (Value.map (Dict.ofList pairs)).display = (Value.map (Dict.ofList others)).display := by
  constructor
  · intro a b ha hb
    rw [Value.display_inj ha hb, Value.equals_iff_eq ha hb]
  · intro pairs others hperm hnodup
    rw [Dict.ofList_perm hperm hnodup]

/-- A string that spells the text between two others is not taken for them. -/
theorem display_separates_spelled_strings :
    (Value.array [.string "a\", \"b"]).display ≠ (Value.array [.string "a", .string "b"]).display ∧
      (Value.map (Dict.ofList [("b", .integer 2), ("a", .integer 1)])).display =
        (Value.map (Dict.ofList [("a", .integer 1), ("b", .integer 2)])).display := by
  obtain ⟨hidentifies, horder⟩ := display_identifies_discrete_values
  refine ⟨fun h => ?_, horder _ _ (List.Perm.swap ..) (by decide)⟩
  have hequal := (hidentifies (.array [.string "a\", \"b"]) (.array [.string "a", .string "b"])
    rfl rfl).1 h
  simp [Value.equals, Value.equalItems] at hequal

end ObjectGraph
