import Mathlib.Data.List.Perm.Subperm
import ObjectGraph.Value.Equality

/-!
# Equality of values

Equality is symmetric. Between maps that takes counting: the definition looks from the first map
into the second only, and it is the equal number of entries that makes their keys the same. And
a value is equal to itself except where a double in it is not a number.
-/
namespace ObjectGraph

namespace Entries

variable {α β : Type} {bound low : Option String}

/-- As many entries, and every key of the first in the second: then the keys are the same. -/
theorem keys_subset_of_size_eq {as : Entries α bound} {bs : Entries β low}
    (hsize : as.size = bs.size) (h : as.keys ⊆ bs.keys) : bs.keys ⊆ as.keys := by
  have hlength : bs.keys.length ≤ as.keys.length := by
    simp only [keys, List.length_map]
    exact Nat.le_of_eq hsize.symm
  have hsubperm := List.subperm_of_subset as.nodup_keys h
  exact (hsubperm.perm_of_length_le hlength).symm.subset

end Entries

namespace Value

/-- What holds of scalars and host objects, of an array when it holds of its items and of a map
when it holds of the values in it, holds of every value. -/
@[elab_as_elim]
theorem nested_induction {P : Value → Prop} (null : P .null) (boolean : ∀ b, P (.boolean b))
    (integer : ∀ n, P (.integer n)) (float : ∀ x, P (.float x)) (string : ∀ s, P (.string s))
    (array : ∀ items, (∀ v ∈ items, P v) → P (.array items))
    (map : ∀ entries : Dict Value, (∀ key v, entries.find? key = some v → P v) → P (.map entries))
    (object : ∀ o, P (.object o)) (v : Value) : P v := by
  refine @Value.rec P (fun items => ∀ v ∈ items, P v)
    (fun _ entries => ∀ key v, entries.find? key = some v → P v)
    null boolean integer float string array map object ?nil ?cons ?none ?entry v
  case nil => exact nofun
  case cons =>
    intro head tail hhead htail v hmem
    rcases List.mem_cons.1 hmem with rfl | hmem
    · exact hhead
    · exact htail v hmem
  case none => exact nofun
  case entry =>
    intro _ key₀ v₀ _ rest hfirst hrest key v hfind
    by_cases hkey : key = key₀
    · simp only [Entries.find?, if_pos hkey, Option.some.injEq] at hfind
      exact hfind ▸ hfirst
    · simp only [Entries.find?, if_neg hkey] at hfind
      exact hrest key v hfind

/-! ## Maps -/

theorem equalEntries_cons {bound : Option String} (key : String) (a : Value)
    (above : Above bound key) (rest : Entries Value (some key)) (other : Dict Value) :
    equalEntries (.cons key a above rest) other =
      ((other.find? key).any a.equals && equalEntries rest other) := by
  rw [equalEntries]
  cases other.find? key <;> rfl

theorem equalEntries_iff {bound : Option String} {entries : Entries Value bound}
    {other : Dict Value} :
    equalEntries entries other = true ↔
      ∀ key a, entries.find? key = some a → ∃ b, other.find? key = some b ∧ a.equals b = true := by
  induction entries with
  | nil => simp [equalEntries, Entries.find?]
  | cons key₀ a₀ above rest ih =>
    rw [equalEntries_cons, Bool.and_eq_true, Option.any_eq_true, ih]
    constructor
    · rintro ⟨hfirst, hrest⟩ key a hfind
      by_cases h : key = key₀
      · subst h
        simp only [Entries.find?, if_true, Option.some.injEq] at hfind
        exact hfind ▸ hfirst
      · simp only [Entries.find?, if_neg h] at hfind
        exact hrest key a hfind
    · intro h
      refine ⟨h key₀ a₀ (by simp [Entries.find?]), fun key a hfind => h key a ?_⟩
      have hne : key ≠ key₀ := by
        rintro rfl
        rw [rest.find?_bound] at hfind
        cases hfind
      simpa [Entries.find?, hne] using hfind

theorem map_equals_iff {as bs : Dict Value} :
    (map as).equals (map bs) = true ↔ as.size = bs.size ∧
      ∀ key a, as.find? key = some a → ∃ b, bs.find? key = some b ∧ a.equals b = true := by
  rw [← equalEntries_iff, equals, Bool.and_eq_true, decide_eq_true_eq]

/-- Each key of the second map has a value in the first, and it is the one that was compared. -/
theorem map_equals_symm {as bs : Dict Value}
    (hvalues : ∀ key a, as.find? key = some a → ∀ b, a.equals b = true → b.equals a = true)
    (h : (map as).equals (map bs) = true) : (map bs).equals (map as) = true := by
  obtain ⟨hsize, hpartner⟩ := map_equals_iff.1 h
  have hsubset : as.keys ⊆ bs.keys := by
    intro key hmem
    obtain ⟨a, ha⟩ := Entries.mem_keys_iff.1 hmem
    obtain ⟨b, hb, -⟩ := hpartner key a ha
    exact Entries.mem_keys_iff.2 ⟨b, hb⟩
  refine map_equals_iff.2 ⟨hsize.symm, fun key b hb => ?_⟩
  obtain ⟨a, ha⟩ := Entries.mem_keys_iff.1
    (Entries.keys_subset_of_size_eq hsize hsubset (Entries.mem_keys_iff.2 ⟨b, hb⟩))
  obtain ⟨b', hb', hequal⟩ := hpartner key a ha
  obtain rfl : b' = b := Option.some.inj (hb'.symm.trans hb)
  exact ⟨a, ha, hvalues key a ha b' hequal⟩

/-! ## Symmetry -/

theorem equalItems_symm {as : List Value}
    (hitems : ∀ a ∈ as, ∀ b, a.equals b = true → b.equals a = true) {bs : List Value}
    (h : equalItems as bs = true) : equalItems bs as = true := by
  induction as generalizing bs with
  | nil =>
    cases bs with
    | nil => rfl
    | cons b bs => cases h
  | cons a as ih =>
    cases bs with
    | nil => cases h
    | cons b bs =>
      obtain ⟨hhead, htail⟩ := List.forall_mem_cons.1 hitems
      rw [equalItems, Bool.and_eq_true] at h ⊢
      exact ⟨hhead b h.1, ih htail h.2⟩

theorem equals_symm (a b : Value) (h : a.equals b = true) : b.equals a = true := by
  induction a using nested_induction generalizing b with
  | null =>
    cases b with
    | null => rfl
    | _ => cases h
  | boolean x =>
    cases b with
    | boolean y => simpa [equals, eq_comm] using h
    | _ => cases h
  | integer m =>
    cases b with
    | integer n => simpa [equals, eq_comm] using h
    | float y => exact h
    | _ => cases h
  | float x =>
    cases b with
    | integer n => exact h
    | float y =>
      rw [equals, y.eq_comm]
      exact h
    | _ => cases h
  | string s =>
    cases b with
    | string t => simpa [equals, eq_comm] using h
    | _ => cases h
  | array as ih =>
    cases b with
    | array bs => exact equalItems_symm ih h
    | _ => cases h
  | map as ih =>
    cases b with
    | map bs => exact map_equals_symm ih h
    | _ => cases h
  | object o =>
    cases b with
    | object o' => simpa [equals, ObjectRef.same, eq_comm] using h
    | _ => cases h

theorem equals_comm (a b : Value) : a.equals b = b.equals a :=
  Bool.eq_iff_iff.2 ⟨equals_symm a b, equals_symm b a⟩

/-! ## Reflexivity -/

/-- A double that is not a number, at any depth of arrays and maps. What a host object holds is
no part of the value. -/
inductive HoldsNaN : Value → Prop
  | float {x : Binary64} (h : x.isNaN = true) : HoldsNaN (.float x)
  | item {items : List Value} {v : Value} (hmem : v ∈ items) (h : HoldsNaN v) :
      HoldsNaN (.array items)
  | entry {entries : Dict Value} {key : String} {v : Value} (hfind : entries.find? key = some v)
      (h : HoldsNaN v) : HoldsNaN (.map entries)

theorem holdsNaN_float_iff {x : Binary64} : HoldsNaN (.float x) ↔ x.isNaN = true :=
  ⟨fun | .float h => h, .float⟩

theorem holdsNaN_array_iff {items : List Value} :
    HoldsNaN (.array items) ↔ ∃ v ∈ items, HoldsNaN v :=
  ⟨fun | .item hmem h => ⟨_, hmem, h⟩, fun ⟨_, hmem, h⟩ => .item hmem h⟩

theorem holdsNaN_map_iff {entries : Dict Value} :
    HoldsNaN (.map entries) ↔ ∃ key v, entries.find? key = some v ∧ HoldsNaN v :=
  ⟨fun | .entry hfind h => ⟨_, _, hfind, h⟩, fun ⟨_, _, hfind, h⟩ => .entry hfind h⟩

theorem equalItems_self_iff (items : List Value) :
    equalItems items items = true ↔ ∀ v ∈ items, v.equals v = true := by
  induction items with
  | nil => exact iff_of_true rfl nofun
  | cons v items ih => rw [equalItems, Bool.and_eq_true, ih, List.forall_mem_cons]

theorem map_equals_self_iff (entries : Dict Value) :
    (map entries).equals (map entries) = true ↔
      ∀ key v, entries.find? key = some v → v.equals v = true := by
  rw [map_equals_iff]
  constructor
  · rintro ⟨-, h⟩ key v hfind
    obtain ⟨v', hfind', hself⟩ := h key v hfind
    obtain rfl : v = v' := Option.some.inj (hfind.symm.trans hfind')
    exact hself
  · exact fun h => ⟨rfl, fun key v hfind => ⟨v, hfind, h key v hfind⟩⟩

theorem equals_self_iff (a : Value) : a.equals a = true ↔ ¬ a.HoldsNaN := by
  induction a using nested_induction with
  | null => exact iff_of_true rfl nofun
  | boolean b => exact iff_of_true (by simp [equals]) nofun
  | integer n => exact iff_of_true (by simp [equals]) nofun
  | float x => simp [equals, holdsNaN_float_iff]
  | string s => exact iff_of_true (by simp [equals]) nofun
  | array items ih =>
    rw [equals, equalItems_self_iff, holdsNaN_array_iff, forall₂_congr ih]
    simp only [not_exists, not_and]
  | map entries ih =>
    rw [map_equals_self_iff, holdsNaN_map_iff, forall₃_congr ih]
    simp only [not_exists, not_and]
  | object o => exact iff_of_true (by simp [equals, ObjectRef.same]) nofun

end Value

/-- Equality of values is symmetric, and a value is equal to itself exactly when no double in it,
at whatever depth, is not a number. -/
theorem equality_symmetric_and_reflexive_without_nan :
    (∀ a b : Value, a.equals b = b.equals a) ∧
      ∀ a : Value, a.equals a = true ↔ ¬ a.HoldsNaN :=
  ⟨Value.equals_comm, Value.equals_self_iff⟩

end ObjectGraph
