/-!
# Finite maps with text keys

A map is its list of entries in strictly ascending key order. The order is part
of the type, so two maps with the same entries are the same term, whatever the
order of the insertions that built them, and every walk over a map meets the
keys in ascending order of their code points.
-/
namespace ObjectGraph

/-- `key` comes after the bound, if there is one. -/
def Above (bound : Option String) (key : String) : Prop :=
  ∀ low, bound = some low → low < key

@[simp] theorem above_none (key : String) : Above none key := by
  intro low h
  cases h

@[simp] theorem above_some (low key : String) : Above (some low) key ↔ low < key := by
  constructor
  · intro h
    exact h low rfl
  · rintro h _ ⟨⟩
    exact h

theorem Above.trans {bound : Option String} {key next : String} (h : Above bound key)
    (hlt : key < next) : Above bound next := by
  intro low hlow
  exact String.lt_trans (h low hlow) hlt

/-- Entries in ascending key order, all keys above the bound. -/
inductive Entries (α : Type) : Option String → Type
  | nil {bound : Option String} : Entries α bound
  | cons {bound : Option String} (key : String) (value : α) (above : Above bound key)
      (rest : Entries α (some key)) : Entries α bound

/-- A finite map: entries without a lower bound. -/
abbrev Dict (α : Type) := Entries α none

namespace Entries

variable {α β : Type} {bound : Option String}

/-- The entries, keys ascending. -/
def toList {bound : Option String} : Entries α bound → List (String × α)
  | nil => []
  | cons key value _ rest => (key, value) :: rest.toList

def keys (entries : Entries α bound) : List String :=
  entries.toList.map Prod.fst

def size (entries : Entries α bound) : Nat :=
  entries.toList.length

def isEmpty : Entries α bound → Bool
  | nil => true
  | cons _ _ _ _ => false

def find? {bound : Option String} (wanted : String) : Entries α bound → Option α
  | nil => none
  | cons key value _ rest => if wanted = key then some value else rest.find? wanted

def contains (wanted : String) (entries : Entries α bound) : Bool :=
  (entries.find? wanted).isSome

/-- Adds an entry, replacing the one of the same key. -/
def insertAbove {bound : Option String} (key : String) (value : α) (above : Above bound key) :
    Entries α bound → Entries α bound
  | nil => cons key value above nil
  | cons key₀ value₀ above₀ rest =>
    if hlt : key < key₀ then
      cons key value above (cons key₀ value₀ ((above_some key key₀).2 hlt) rest)
    else if heq : key = key₀ then
      cons key₀ value above₀ rest
    else
      have hgt : key₀ < key := Std.lt_of_le_of_ne (String.not_lt.1 hlt) (Ne.symm heq)
      cons key₀ value₀ above₀ (rest.insertAbove key value ((above_some key₀ key).2 hgt))

/-- The same entries seen from a lower bound. -/
def lower {low : Option String} {key : String} (above : Above low key) :
    Entries α (some key) → Entries α low
  | nil => nil
  | cons key₀ value₀ above₀ rest =>
    cons key₀ value₀ (above.trans ((above_some key key₀).1 above₀)) rest

def erase {bound : Option String} (unwanted : String) : Entries α bound → Entries α bound
  | nil => nil
  | cons key value above rest =>
    if unwanted = key then rest.lower above else cons key value above (rest.erase unwanted)

def map {bound : Option String} (f : α → β) : Entries α bound → Entries β bound
  | nil => nil
  | cons key value above rest => cons key (f value) above (rest.map f)

@[simp] theorem toList_nil : (nil : Entries α bound).toList = [] := rfl

@[simp] theorem toList_cons (key : String) (value : α) (above : Above bound key)
    (rest : Entries α (some key)) :
    (cons key value above rest).toList = (key, value) :: rest.toList := rfl

@[simp] theorem toList_lower {low : Option String} {key : String} (above : Above low key)
    (entries : Entries α (some key)) : (entries.lower above).toList = entries.toList := by
  cases entries <;> rfl

@[simp] theorem find?_lower {low : Option String} {key : String} (above : Above low key)
    (entries : Entries α (some key)) (wanted : String) :
    (entries.lower above).find? wanted = entries.find? wanted := by
  cases entries <;> rfl

@[simp] theorem toList_map (f : α → β) (entries : Entries α bound) :
    (entries.map f).toList = entries.toList.map fun entry => (entry.1, f entry.2) := by
  induction entries with
  | nil => rfl
  | cons key value above rest ih => simp [map, ih]

@[simp] theorem keys_map (f : α → β) (entries : Entries α bound) :
    (entries.map f).keys = entries.keys := by
  simp [keys, Function.comp_def]

@[simp] theorem size_map (f : α → β) (entries : Entries α bound) :
    (entries.map f).size = entries.size := by
  simp [size]

@[simp] theorem find?_map (f : α → β) (entries : Entries α bound) (wanted : String) :
    (entries.map f).find? wanted = (entries.find? wanted).map f := by
  induction entries with
  | nil => rfl
  | cons key value above rest ih =>
    by_cases h : wanted = key <;> simp [map, find?, h, ih]

/-- The last write of a key is the one that is found. -/
theorem find?_insertAbove (key wanted : String) (value : α) (above : Above bound key)
    (entries : Entries α bound) :
    (entries.insertAbove key value above).find? wanted =
      if wanted = key then some value else entries.find? wanted := by
  induction entries with
  | nil => simp [insertAbove, find?]
  | cons key₀ value₀ above₀ rest ih =>
    simp only [insertAbove]
    split
    · simp [find?]
    · split
      · rename_i heq
        subst heq
        by_cases h : wanted = key <;> simp [find?, h]
      · rename_i hne
        by_cases h : wanted = key₀
        · subst h
          simp [find?, Ne.symm hne]
        · simp [find?, h, ih]

/-- Every key of the entries is above their bound. -/
theorem above_of_mem_keys {entries : Entries α bound} {key : String}
    (h : key ∈ entries.keys) : Above bound key := by
  induction entries with
  | nil => simp [keys] at h
  | cons key₀ value₀ above₀ rest ih =>
    simp only [keys, toList_cons, List.map_cons, List.mem_cons] at h
    rcases h with rfl | h
    · exact above₀
    · exact above₀.trans ((above_some _ _).1 (ih h))

/-- Keys ascend strictly, so no key occurs twice. -/
theorem pairwise_keys (entries : Entries α bound) : entries.keys.Pairwise (· < ·) := by
  induction entries with
  | nil => simp [keys]
  | cons key value above rest ih =>
    simp only [keys, toList_cons, List.map_cons, List.pairwise_cons]
    exact ⟨fun next h => (above_some _ _).1 (above_of_mem_keys h), ih⟩

theorem nodup_keys (entries : Entries α bound) : entries.keys.Nodup := by
  refine entries.pairwise_keys.imp ?_
  rintro key _ hlt rfl
  exact String.lt_irrefl _ hlt

theorem mem_keys_iff {entries : Entries α bound} {key : String} :
    key ∈ entries.keys ↔ ∃ value, entries.find? key = some value := by
  induction entries with
  | nil => simp [keys, find?]
  | cons key₀ value₀ above rest ih =>
    by_cases h : key = key₀
    · simp [keys, find?, h]
    · simpa [keys, find?, h] using ih

theorem find?_eq_none_of_not_mem {entries : Entries α bound} {wanted : String}
    (h : wanted ∉ entries.keys) : entries.find? wanted = none := by
  cases hfind : entries.find? wanted with
  | none => rfl
  | some value => exact absurd (mem_keys_iff.2 ⟨value, hfind⟩) h

/-- A key that bounds the entries from below is not among them. -/
theorem find?_bound {key : String} (entries : Entries α (some key)) : entries.find? key = none := by
  refine find?_eq_none_of_not_mem fun hmem => ?_
  exact String.lt_irrefl _ ((above_some _ _).1 (above_of_mem_keys hmem))

theorem mem_toList_iff {entries : Entries α bound} {key : String} {value : α} :
    (key, value) ∈ entries.toList ↔ entries.find? key = some value := by
  induction entries with
  | nil => simp [find?]
  | cons key₀ value₀ above rest ih =>
    rw [toList_cons, List.mem_cons, ih, find?]
    by_cases h : key = key₀
    · -- The bound of the rest is this key, so it is not found there again.
      subst h
      simp [find?_bound, eq_comm]
    · simp [h]

end Entries

namespace Dict

variable {α : Type}

def empty : Dict α := .nil

def insert (dict : Dict α) (key : String) (value : α) : Dict α :=
  dict.insertAbove key value (above_none key)

/-- Writes the pairs in order; of a repeated key the last pair stays. -/
def ofList (pairs : List (String × α)) : Dict α :=
  pairs.foldl (fun dict pair => dict.insert pair.1 pair.2) empty

@[simp] theorem find?_empty (wanted : String) : (empty : Dict α).find? wanted = none := rfl

theorem find?_insert (dict : Dict α) (key wanted : String) (value : α) :
    (dict.insert key value).find? wanted =
      if wanted = key then some value else dict.find? wanted :=
  Entries.find?_insertAbove key wanted value (above_none key) dict

@[simp] theorem find?_insert_self (dict : Dict α) (key : String) (value : α) :
    (dict.insert key value).find? key = some value := by
  simp [find?_insert]

end Dict
end ObjectGraph
