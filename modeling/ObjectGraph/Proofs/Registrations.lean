import ObjectGraph.Host.ClassTable

/-!
# Class tables by their registrations

Fields and methods are kept in tables of their own, and in each of them the last registration of a
name is the one that is found, whatever was registered before it, between and after it. A class
has an indexer when one was ever registered.
-/
namespace ObjectGraph

variable {σ α β : Type}

theorem getLast?_filterMap_cons (f : α → Option β) (a : α) (as : List α) :
    ((a :: as).filterMap f).getLast? = ((as.filterMap f).getLast?).or (f a) := by
  cases h : f a with
  | none => simp [h]
  | some b => cases ht : (as.filterMap f).getLast? <;> simp [h, List.getLast?_cons, ht]

namespace Registration

/-- The field that is registered under that name. -/
def field? (name : String) : Registration σ → Option (Field σ)
  | field n visibility read => if name = n then some ⟨visibility, read, none⟩ else none
  | writableField n visibility read write =>
    if name = n then some ⟨visibility, read, some write⟩ else none
  | _ => none

/-- The method that is registered under that name. -/
def method? (name : String) : Registration σ → Option (Method σ)
  | method n visibility arity body => if name = n then some ⟨visibility, some arity, body⟩ else none
  | variadic n visibility body => if name = n then some ⟨visibility, none, body⟩ else none
  | _ => none

def isIndexer : Registration σ → Bool
  | indexer _ _ => true
  | _ => false

/-- The last field of that name. -/
def lastField? (registrations : List (Registration σ)) (name : String) : Option (Field σ) :=
  (registrations.filterMap (field? name)).getLast?

/-- The last method of that name. -/
def lastMethod? (registrations : List (Registration σ)) (name : String) : Option (Method σ) :=
  (registrations.filterMap (method? name)).getLast?

theorem exists_of_lastField? {registrations : List (Registration σ)} {name : String} {f : Field σ}
    (h : lastField? registrations name = some f) : ∃ r ∈ registrations, r.field? name = some f :=
  List.mem_filterMap.1 (List.mem_of_getLast? h)

theorem exists_of_lastMethod? {registrations : List (Registration σ)} {name : String}
    {m : Method σ} (h : lastMethod? registrations name = some m) :
    ∃ r ∈ registrations, r.method? name = some m :=
  List.mem_filterMap.1 (List.mem_of_getLast? h)

end Registration

namespace ClassTable

theorem field?_register (table : ClassTable σ) (r : Registration σ) (name : String) :
    (table.register r).field? name = (r.field? name).or (table.field? name) := by
  cases r with
  | field n visibility read | writableField n visibility read write =>
    simp only [register, field?, Dict.find?_insert, Registration.field?]
    split <;> rfl
  | _ => rfl

theorem method?_register (table : ClassTable σ) (r : Registration σ) (name : String) :
    (table.register r).method? name = (r.method? name).or (table.method? name) := by
  cases r with
  | method n visibility arity body | variadic n visibility body =>
    simp only [register, method?, Dict.find?_insert, Registration.method?]
    split <;> rfl
  | _ => rfl

/-- What a registration puts into a table before it stays until the next of that name. -/
theorem find_foldl_register (look : ClassTable σ → Option α) (put : Registration σ → Option α)
    (h : ∀ table r, look (table.register r) = (put r).or (look table))
    (registrations : List (Registration σ)) (table : ClassTable σ) :
    look (registrations.foldl register table) =
      ((registrations.filterMap put).getLast?).or (look table) := by
  induction registrations generalizing table with
  | nil => rfl
  | cons r registrations ih =>
    rw [List.foldl_cons, ih, h, getLast?_filterMap_cons, Option.or_assoc]

theorem field?_build (registrations : List (Registration σ)) (name : String) :
    (build registrations).field? name = Registration.lastField? registrations name := by
  rw [build, find_foldl_register (·.field? name) (·.field? name)
    fun table r => field?_register table r name]
  exact Option.or_none

theorem method?_build (registrations : List (Registration σ)) (name : String) :
    (build registrations).method? name = Registration.lastMethod? registrations name := by
  rw [build, find_foldl_register (·.method? name) (·.method? name)
    fun table r => method?_register table r name]
  exact Option.or_none

theorem isSome_indexer_foldl_register (registrations : List (Registration σ))
    (table : ClassTable σ) :
    (registrations.foldl register table).indexer.isSome =
      (registrations.any Registration.isIndexer || table.indexer.isSome) := by
  induction registrations generalizing table with
  | nil => rfl
  | cons r registrations ih =>
    rw [List.foldl_cons, ih, List.any_cons]
    cases r <;> simp [register, Registration.isIndexer]

theorem indexer_build_eq_none_iff {registrations : List (Registration σ)} :
    (build registrations).indexer = none ↔ registrations.any Registration.isIndexer = false := by
  rw [← Option.not_isSome_iff_eq_none, build, isSome_indexer_foldl_register]
  simp [empty]

end ClassTable
end ObjectGraph
