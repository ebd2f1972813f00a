import Mathlib.Data.List.Nodup
import ObjectGraph.Host.World
import ObjectGraph.Proofs.Registrations

/-!
# What a class table holds

Whatever was registered and in whatever order, the table holds the last field and the last method
of every name and the last indexer, with the last setter that came after it. Its members are
listed once each, under the names they are found by, and start out flagged when they are public
and without elevations. A property name resolves by these last registrations.
-/
namespace ObjectGraph

variable {σ : Type}

/-! ## The indexer -/

namespace Registration

/-- The setter that is registered for the indexer before it. -/
def indexSetter? : Registration σ → Option (String → Value → Value → HostCode σ Unit)
  | indexSetter write => some write
  | _ => none

def lastIndexSetter? (registrations : List (Registration σ)) :
    Option (String → Value → Value → HostCode σ Unit) :=
  (registrations.filterMap indexSetter?).getLast?

/-- The last indexer that was registered, and what was registered after it. -/
def LastIndexer (registrations : List (Registration σ)) (visibility : Visibility)
    (read : String → Value → HostCode σ Value) (after : List (Registration σ)) : Prop :=
  ∃ before, registrations = before ++ .indexer visibility read :: after ∧
    after.any isIndexer = false

theorem isSome_lastIndexSetter? {registrations : List (Registration σ)} :
    (lastIndexSetter? registrations).isSome = true ↔
      ∃ write, .indexSetter write ∈ registrations := by
  rw [lastIndexSetter?, List.getLast?_isSome, ne_eq, List.filterMap_eq_nil_iff]
  constructor
  · intro h
    obtain ⟨r, hmem, hr⟩ : ∃ r ∈ registrations, r.indexSetter? ≠ none := by
      simpa using h
    cases r with
    | indexSetter write => exact ⟨write, hmem⟩
    | _ => exact absurd rfl hr
  · rintro ⟨write, hmem⟩ hnone
    cases hnone _ hmem

theorem exists_lastIndexer : ∀ {registrations : List (Registration σ)},
    registrations.any isIndexer = true →
      ∃ visibility read after, LastIndexer registrations visibility read after
  | r :: rest, h => by
    cases hrest : rest.any isIndexer with
    | true =>
      obtain ⟨visibility, read, after, before, hsplit, hafter⟩ := exists_lastIndexer hrest
      exact ⟨visibility, read, after, r :: before, by rw [hsplit, List.cons_append], hafter⟩
    | false =>
      cases r with
      | indexer visibility read => exact ⟨visibility, read, rest, [], rfl, hrest⟩
      | _ => simp [isIndexer, hrest] at h

end Registration

namespace ClassTable

open Registration

theorem indexer_foldl_of_no_indexer {registrations : List (Registration σ)}
    (h : registrations.any isIndexer = false) (table : ClassTable σ) :
    (registrations.foldl register table).indexer =
      table.indexer.map fun ix =>
        { ix with write := (lastIndexSetter? registrations).or ix.write } := by
  induction registrations generalizing table with
  | nil => simp [lastIndexSetter?]
  | cons r rest ih =>
    simp only [List.any_cons, Bool.or_eq_false_iff] at h
    have hlast : lastIndexSetter? (r :: rest) =
        (lastIndexSetter? rest).or r.indexSetter? := getLast?_filterMap_cons _ r rest
    rw [List.foldl_cons, ih h.2, hlast]
    cases r with
    | indexer visibility read => cases h.1
    | indexSetter write => simp [register, indexSetter?, Function.comp_def]
    | _ => simp [register, indexSetter?]

theorem indexer_build_of_lastIndexer {registrations after : List (Registration σ)}
    {visibility : Visibility} {read : String → Value → HostCode σ Value}
    (h : LastIndexer registrations visibility read after) :
    (build registrations).indexer = some ⟨visibility, read, lastIndexSetter? after⟩ := by
  obtain ⟨before, rfl, hafter⟩ := h
  rw [build, List.foldl_append, List.foldl_cons, indexer_foldl_of_no_indexer hafter]
  simp [register]

theorem indexer_build_eq_some_iff {registrations : List (Registration σ)} {ix : Indexer σ} :
    (build registrations).indexer = some ix ↔ ∃ after,
      LastIndexer registrations ix.visibility ix.read after ∧
        ix.write = lastIndexSetter? after := by
  constructor
  · intro h
    have hany : registrations.any isIndexer = true := by
      by_contra hnone
      rw [indexer_build_eq_none_iff.2 (Bool.not_eq_true _ ▸ hnone)] at h
      cases h
    obtain ⟨visibility, read, after, hlast⟩ := exists_lastIndexer hany
    rw [indexer_build_of_lastIndexer hlast] at h
    obtain rfl := Option.some.inj h
    exact ⟨after, hlast, rfl⟩
  · rintro ⟨after, hlast, hwrite⟩
    rw [indexer_build_of_lastIndexer hlast, ← hwrite]

/-- Without an indexer before it, a setter might as well not be registered. -/
theorem build_of_early_setter {before : List (Registration σ)}
    (h : before.any isIndexer = false) (write : String → Value → Value → HostCode σ Unit)
    (after : List (Registration σ)) :
    build (before ++ .indexSetter write :: after) = build (before ++ after) := by
  have hnone : (before.foldl register empty).indexer = none := indexer_build_eq_none_iff.2 h
  have hskip : (before.foldl register empty).register (.indexSetter write) =
      before.foldl register empty := by
    rw [register, hnone, Option.map_none, ← hnone]
  rw [build, build, List.foldl_append, List.foldl_append, List.foldl_cons, hskip]

/-! ## Members -/

variable {table : ClassTable σ} {cls : ClassRef}

theorem mem_members_iff {m : Member} :
    m ∈ table.members cls ↔
      (∃ name f, table.field? name = some f ∧ m = f.member cls name) ∨
      (∃ name x, table.method? name = some x ∧ m = x.member cls name) ∨
      ∃ ix, table.indexer = some ix ∧ m = ix.member cls := by
  simp only [members, List.mem_append, List.mem_map, Prod.exists, Entries.mem_toList_iff,
    Option.mem_toList, field?, method?, or_assoc, eq_comm (b := m)]

/-- Members made from the entries of a table are as different as the names of the entries. -/
theorem nodup_named {α : Type} (entries : Dict α) (member : String × α → Member)
    (hname : ∀ entry, (member entry).name = entry.1) : (entries.toList.map member).Nodup := by
  refine List.Nodup.of_map Member.name ?_
  have hkeys : (entries.toList.map member).map Member.name = entries.keys := by
    rw [List.map_map, Entries.keys]
    exact List.map_congr_left fun entry _ => hname entry
  rw [hkeys]
  exact entries.nodup_keys

theorem nodup_members (table : ClassTable σ) (cls : ClassRef) : (table.members cls).Nodup := by
  have hfields := nodup_named table.fields (fun entry => entry.2.member cls entry.1) fun _ => rfl
  have hmethods := nodup_named table.methods (fun entry => entry.2.member cls entry.1) fun _ => rfl
  have hindexer : (table.indexer.toList.map fun ix => ix.member cls).Nodup := by
    cases table.indexer <;> simp
  -- Members of different tables are of different kinds.
  refine (hfields.append hmethods ?_).append hindexer ?_
  · intro m hfield hmethod
    obtain ⟨entry, -, rfl⟩ := List.mem_map.1 hfield
    obtain ⟨entry', -, heq⟩ := List.mem_map.1 hmethod
    cases congrArg Member.kind heq
  · intro m hnamed hix
    obtain ⟨ix, -, rfl⟩ := List.mem_map.1 hix
    rcases List.mem_append.1 hnamed with h | h <;> obtain ⟨entry, -, heq⟩ := List.mem_map.1 h <;>
      cases congrArg Member.kind heq

/-! ## Properties -/

theorem property?_eq_findSome? (table : ClassTable σ) (name : String) :
    table.property? name = ((table.field? name).map (.field name)).or
      ([name, "get_" ++ name, "is_" ++ name].findSome? table.getter?) := by
  cases hfield : table.field? name with
  | some f => simp [property?, hfield]
  | none =>
    simp only [property?, hfield, Option.map_none, Option.none_or, List.findSome?_cons,
      List.findSome?_nil]
    cases table.getter? name <;> cases table.getter? ("get_" ++ name) <;>
      cases table.getter? ("is_" ++ name) <;> rfl

theorem member_mem_members {name : String} {p : Property σ} (h : table.property? name = some p)
    (cls : ClassRef) : p.member cls ∈ table.members cls := by
  rw [property?_eq_findSome?, Option.or_eq_some_iff] at h
  rw [mem_members_iff]
  obtain h | ⟨-, h⟩ := h
  · obtain ⟨f, hfield, rfl⟩ := Option.map_eq_some_iff.1 h
    exact .inl ⟨name, f, hfield, rfl⟩
  · obtain ⟨getter, -, hgetter⟩ := List.exists_of_findSome?_eq_some h
    obtain ⟨x, hmethod, hx⟩ := Option.bind_eq_some_iff.1 hgetter
    split at hx
    · obtain rfl := Option.some.inj hx
      exact .inr (.inl ⟨getter, x, hmethod, rfl⟩)
    · cases hx

/-- A fresh member is flagged exactly when it is public, and nobody has elevated it. -/
theorem fresh_of_mem_members {m : Member} (h : m ∈ table.members cls) (host : σ) :
    m.cls = cls ∧ (Shared.fresh host).grants m = ⟨m.visibility = .isPublic, 0⟩ := by
  obtain ⟨name, f, -, rfl⟩ | ⟨name, x, -, rfl⟩ | ⟨ix, -, rfl⟩ := mem_members_iff.1 h <;>
    exact ⟨rfl, rfl⟩

end ClassTable

namespace Registration

/-- The method registered last under that name stands in for a property when it takes no
arguments. -/
def lastGetter? (registrations : List (Registration σ)) (name : String) : Option (Property σ) :=
  (lastMethod? registrations name).bind fun x =>
    if x.arity = some 0 then some (.getter name x) else none

end Registration

open Registration in
/-- For every list of registrations. The table finds the last field and the last method of each
name, and the last indexer, which is writable by the last setter after it; a setter before every
indexer has no effect. The members are these, each once, under their names and of this class,
flagged when public and not elevated. A property is the field of that name, or else the first
method of the three names that was registered last without arguments. -/
theorem table_holds_last_registrations (registrations : List (Registration σ)) (cls : ClassRef)
    (host : σ) :
    let table := ClassTable.build registrations
    (∀ name, table.field? name = lastField? registrations name ∧
      table.method? name = lastMethod? registrations name) ∧
    (∀ ix, table.indexer = some ix ↔ ∃ after,
      LastIndexer registrations ix.visibility ix.read after ∧ ix.write = lastIndexSetter? after) ∧
    (∀ visibility read after, LastIndexer registrations visibility read after →
      ∃ ix, table.indexer = some ix ∧
        (ix.write.isSome = true ↔ ∃ write, .indexSetter write ∈ after)) ∧
    (∀ before write after, registrations = before ++ .indexSetter write :: after →
      before.any isIndexer = false → table = .build (before ++ after)) ∧
    (table.members cls).Nodup ∧
    (∀ m, m ∈ table.members cls ↔
      (∃ name f, lastField? registrations name = some f ∧
        m = ⟨cls, name, .field, f.visibility⟩) ∨
      (∃ name x, lastMethod? registrations name = some x ∧
        m = ⟨cls, name, .method, x.visibility⟩) ∨
      ∃ ix, table.indexer = some ix ∧ m = ⟨cls, indexerName, .indexer, ix.visibility⟩) ∧
    (∀ m ∈ table.members cls, m.cls.name = cls.name ∧
      (Shared.fresh host).grants m = ⟨m.visibility = .isPublic, 0⟩) ∧
    (∀ name, table.property? name = ((lastField? registrations name).map (.field name)).or
      ([name, "get_" ++ name, "is_" ++ name].findSome? (lastGetter? registrations))) ∧
    ∀ name p, table.property? name = some p → p.member cls ∈ table.members cls := by
  intro table
  have hgetter : table.getter? = lastGetter? registrations := by
    funext name
    rw [ClassTable.getter?, ClassTable.method?_build]
    rfl
  refine ⟨fun name => ⟨ClassTable.field?_build _ _, ClassTable.method?_build _ _⟩,
    fun ix => ClassTable.indexer_build_eq_some_iff, ?_, ?_, table.nodup_members cls, ?_, ?_, ?_,
    fun name p h => ClassTable.member_mem_members h cls⟩
  · intro visibility read after hlast
    exact ⟨_, ClassTable.indexer_build_of_lastIndexer hlast, isSome_lastIndexSetter?⟩
  · rintro before write after rfl hbefore
    exact ClassTable.build_of_early_setter hbefore write after
  · intro m
    rw [ClassTable.mem_members_iff]
    simp only [table, ClassTable.field?_build, ClassTable.method?_build]
    rfl
  · intro m hmem
    obtain ⟨rfl, hfresh⟩ := ClassTable.fresh_of_mem_members hmem host
    exact ⟨rfl, hfresh⟩
  · intro name
    rw [ClassTable.property?_eq_findSome?, hgetter, ClassTable.field?_build]

open Registration in
/-- The method `get_on` was registered again with arguments, so `is_on` stands in for the property;
the setter belongs to the second indexer, and the one at the front to none. -/
theorem table_of_registered_again :
    let read : String → Value → HostCode Unit Value := fun _ _ _ => (.ok .null, ())
    let write : String → Value → Value → HostCode Unit Unit := fun _ _ _ _ => (.ok (), ())
    let body : String → List Value → HostCode Unit Value := fun _ _ _ => (.ok .null, ())
    let rest : List (Registration Unit) :=
      [.method "get_on" .isPublic 0 body, .method "is_on" .isProtected 0 body,
        .indexer .isPublic read, .variadic "get_on" .isPublic body,
        .indexer .isPrivate read, .indexSetter write]
    let table := ClassTable.build (.indexSetter write :: rest)
    let lamp : ClassRef := ⟨0, "Lamp"⟩
    LastIndexer (.indexSetter write :: rest) .isPrivate read [.indexSetter write] ∧
      (∃ ix, table.indexer = some ix ∧ ix.write.isSome = true) ∧ table = .build rest ∧
      table.property? "on" = some (.getter "is_on" ⟨.isProtected, some 0, body⟩) ∧
      (Shared.fresh ()).grants ⟨lamp, "is_on", .method, .isProtected⟩ = ⟨false, 0⟩ := by
  intro read write body rest table lamp
  obtain ⟨-, -, hwritable, hearly, -, hmem, hfresh, hproperty, -⟩ :=
    table_holds_last_registrations (.indexSetter write :: rest) lamp ()
  have hlast : LastIndexer (.indexSetter write :: rest) .isPrivate read [.indexSetter write] :=
    ⟨.indexSetter write :: rest.take 4, rfl, rfl⟩
  obtain ⟨ix, hix, hwrite⟩ := hwritable _ _ _ hlast
  refine ⟨hlast, ⟨ix, hix, hwrite.2 ⟨write, List.mem_singleton_self _⟩⟩,
    hearly [] write rest rfl rfl, (hproperty "on").trans rfl, ?_⟩
  exact (hfresh _ ((hmem _).2 (.inr (.inl ⟨"is_on", _, rfl, rfl⟩)))).2

end ObjectGraph
