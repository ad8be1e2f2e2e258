import Gqe.Lib.Fallible
import Gqe.Lib.VersionedCache
import Gqe.NodeManager.Statements

/-!
# Lifetimes of tables

What a history of statements says about a table name, and what a task manager resolves the name to
at a query. The cache of a task manager goes by descriptors, and two incarnations of a table with
one schema have one descriptor: the row groups of the first are then taken over by the second.
-/

namespace Gqe.NodeManager

open Fallible VersionedCache List Cluster Except Function Option Catalog

variable {G : Type}

/-! ### What a history says about a name -/

/-- The life of a table name: the descriptor of the present incarnation, and the references to
earlier incarnations and to the present one, with the row groups that each has appended. -/
structure Lifetime (G : Type) where
  descriptor : Option Descriptor := none
  earlier : List (Reference Descriptor G) := []
  current : List (Reference Descriptor G) := []
  numCopies : Nat := 0

namespace Lifetime

def create (l : Lifetime G) (desc : Descriptor) : Lifetime G :=
  { l with descriptor := some desc, earlier := l.earlier ++ l.current, current := [] }

def drop (l : Lifetime G) : Lifetime G := { l with descriptor := none }

/-- A plan refers to the table and appends row groups to it. -/
def refer (l : Lifetime G) (rowGroups : List G) : Lifetime G :=
  match l.descriptor with
  | none => l
  | some desc => { l with current := l.current ++ [⟨desc, rowGroups⟩] }

def references (l : Lifetime G) : List (Reference Descriptor G) := l.earlier ++ l.current

/-- The row groups appended since the table was last created. -/
def appended (l : Lifetime G) : List G := l.current.flatMap (·.items)

/-- No COPY has appended row groups to an earlier incarnation since a plan last referred to the
table under another descriptor than the present one. -/
def StartsEmpty (l : Lifetime G) : Prop :=
  ∀ desc ∈ l.descriptor, ∀ r ∈ l.earlier.rtakeWhile (·.version = desc), r.items = []

/-- The descriptor of a table that is created with these columns. -/
def created (tableName : String) (columns : List ColumnTraits) (storage : StorageKind) :
    Descriptor :=
  makeDescriptor storage tableName (columns.map (·.name)) (columns.map (·.dataType))

/-- What a statement means for the name `t`. A COPY also creates the table that it reads. -/
def step (t : String) (l : Lifetime G) : Statement G → Lifetime G
  | .createTable tableName columns storage =>
    if tableName = t then l.create (created t columns storage) else l
  | .createOrReplaceTable tableName columns storage =>
    if tableName = t then l.create (created t columns storage) else l
  | .dropTable tableName => if tableName = t then l.drop else l
  | .dropTableIfExists tableName => if tableName = t then l.drop else l
  | .copy tableName columns filePaths rowGroups =>
    let l' :=
      if tableName = t then l.refer rowGroups
      else if tempName tableName l.numCopies = t then
        (l.create (created t columns (.parquetFile filePaths))).refer []
      else l
    { l' with numCopies := l.numCopies + 1 }
  | .query tableNames => if t ∈ tableNames then l.refer [] else l

end Lifetime

/-- The life of the name `t` in a history. -/
def lifetime (t : String) (history : List (Statement G)) : Lifetime G :=
  history.foldl (Lifetime.step t) {}

/-! ### The cache and the references -/

def Catalog.descriptor (catalog : Catalog) (t : String) : Option Descriptor :=
  (catalog t).map fun info => Lifetime.created t info.columns info.storage

lemma Catalog.storageDescriptor_eq_ok {catalog : Catalog} {t : String} {desc : Descriptor} :
    catalog.storageDescriptor t = .ok desc ↔ catalog.descriptor t = some desc := by
  unfold storageDescriptor descriptor
  cases catalog t with
  | none => simp
  | some info => simp [Lifetime.created, TableInfo.columnTypes_eq, TableInfo.columnNames]

lemma Catalog.tableNameOf_descriptor {catalog : Catalog} {t : String} {desc : Descriptor}
    (h : catalog.descriptor t = some desc) : tableNameOf desc = t := by
  obtain ⟨info, -, rfl⟩ := map_eq_some_iff.1 h
  exact tableNameOf_makeDescriptor ..

@[simp]
lemma StorageTable.append_append (table : StorageTable G) (xs ys : List G) :
    (table.append xs).append ys = table.append (xs ++ ys) := by
  cases table <;> simp [append]

lemma StorageTable.append_nil (table : StorageTable G) : table.append [] = table := by
  cases table <;> simp [append]

namespace RemoteTableCache

/-- The cache keeps for the name `t` what the slot says: the table made from one descriptor, with
the row groups appended to it. -/
def Holds (cache : RemoteTableCache G) (t : String) : Option (Descriptor × List G) → Prop
  | none => ∀ desc ∈ cache.descriptors, tableNameOf desc ≠ t
  | some (desc, rowGroups) =>
    (∀ desc', desc' ∈ cache.descriptors ∧ tableNameOf desc' = t ↔ desc' = desc) ∧
      ∃ table, makeTable desc = .ok table ∧ cache.tables t = some (table.append rowGroups)

variable {cache cache' : RemoteTableCache G} {desc : Descriptor} {t : String}
  {slot : Option (Descriptor × List G)}

/-- One turn of the loop keeps a known descriptor, or replaces those of its name. -/
lemma updateOne_cases (h : cache.updateOne desc = .ok cache') :
    (desc ∈ cache.descriptors ∧ cache' = cache) ∨
      (desc ∉ cache.descriptors ∧ ∃ table, makeTable desc = .ok table ∧
        cache' = ⟨desc :: cache.descriptors.filter (tableNameOf · ≠ tableNameOf desc),
          Function.update cache.tables (tableNameOf desc) (some table)⟩) := by
  unfold updateOne at h
  split_ifs at h with hmem
  · exact .inl ⟨hmem, (ok.inj h).symm⟩
  · obtain ⟨table, htab, h⟩ := bind_eq_ok h
    exact .inr ⟨hmem, table, htab, (ok.inj h).symm⟩

section

variable (hslot : cache.Holds t slot) (h : cache.updateOne desc = .ok cache')
include hslot h

lemma Holds.updateOne_of_ne (hne : tableNameOf desc ≠ t) : cache'.Holds t slot := by
  obtain ⟨-, rfl⟩ | ⟨-, table, -, rfl⟩ := updateOne_cases h
  · exact hslot
  · cases slot with
    | none =>
      intro desc' hmem
      rcases mem_cons.1 hmem with rfl | hmem
      · exact hne
      · exact hslot desc' (mem_of_mem_filter hmem)
    | some slot =>
      obtain ⟨hdesc, old, hold, htab⟩ := hslot
      refine ⟨fun desc' => ?_, old, hold, ?_⟩
      · rw [← hdesc desc']
        constructor
        · rintro ⟨hmem, rfl⟩
          rcases mem_cons.1 hmem with rfl | hmem
          · exact absurd rfl hne
          · exact ⟨mem_of_mem_filter hmem, rfl⟩
        · rintro ⟨hmem, rfl⟩
          exact ⟨mem_cons_of_mem _ (mem_filter.2 ⟨hmem, by simpa using Ne.symm hne⟩), rfl⟩
      · simpa [Function.update_of_ne hne.symm] using htab

/-- Updating with the descriptor of the name is a reference to it that appends nothing. -/
lemma Holds.updateOne (ht : tableNameOf desc = t) : cache'.Holds t (refresh slot ⟨desc, []⟩) := by
  obtain ⟨hmem, rfl⟩ | ⟨hmem, table, htab, rfl⟩ := updateOne_cases h
  · cases slot with
    | none => exact absurd ht (hslot desc hmem)
    | some slot =>
      obtain ⟨hdesc, hold⟩ := hslot
      obtain rfl : desc = slot.1 := (hdesc desc).1 ⟨hmem, ht⟩
      have hsame : refresh (some slot) ⟨slot.1, []⟩ = some slot := by
        cases slot
        simp [refresh]
      rw [hsame]
      exact ⟨hdesc, hold⟩
  · -- no descriptor of the name is left but the new one, and its table is empty
    have hemp : contents desc slot = [] := by
      cases slot with
      | none => rfl
      | some slot =>
        have hne : slot.1 ≠ desc := by
          rintro rfl
          exact hmem ((hslot.1 slot.1).2 rfl).1
        exact if_neg hne
    subst ht
    refine ⟨fun desc' => ⟨?_, ?_⟩, table, htab, ?_⟩
    · rintro ⟨hmem', hname⟩
      rcases mem_cons.1 hmem' with rfl | hmem'
      · rfl
      · simp [hname] at hmem'
    · rintro rfl
      exact ⟨mem_cons_self, rfl⟩
    · simp [hemp, StorageTable.append_nil]

end

variable {rowGroups : List G}

lemma write_cases (h : cache.write t rowGroups = .ok cache') :
    ∃ table, cache.tables t = some table ∧ cache' = { cache with
        tables := Function.update cache.tables t (some (table.append rowGroups)) } := by
  obtain ⟨table, htab, h⟩ := bind_eq_ok h
  unfold getTable at htab
  cases hres : cache.tables t with
  | none => simp [hres] at htab
  | some table' =>
    obtain rfl : table' = table := by simpa [hres] using htab
    exact ⟨table', rfl, (ok.inj h).symm⟩

lemma Holds.write_of_ne {n : String} (hslot : cache.Holds t slot)
    (h : cache.write n rowGroups = .ok cache') (hne : n ≠ t) : cache'.Holds t slot := by
  obtain ⟨table, -, rfl⟩ := write_cases h
  cases slot with
  | none => exact hslot
  | some slot =>
    obtain ⟨hdesc, old, hold, htab⟩ := hslot
    exact ⟨hdesc, old, hold, by simpa [update_of_ne hne.symm] using htab⟩

/-- A write after the update makes the reference one that appends its row groups. -/
lemma Holds.write (hslot : cache.Holds t (refresh slot ⟨desc, []⟩))
    (h : cache.write t rowGroups = .ok cache') :
    cache'.Holds t (refresh slot ⟨desc, rowGroups⟩) := by
  obtain ⟨table, hres, rfl⟩ := write_cases h
  obtain ⟨hdesc, old, hold, htab⟩ := hslot
  obtain rfl : old.append _ = table := some.inj (htab.symm.trans hres)
  exact ⟨hdesc, old, hold, by simp⟩

end RemoteTableCache

/-! ### Plans -/

section Plans

variable {catalog : Catalog} {cache cache' : RemoteTableCache G} {t : String}
  {slot : Option (Descriptor × List G)}

variable {names : List String}

lemma onTaskManagers_cons {n : String}
    (h : executeOnTaskManagers catalog cache (n :: names) = .ok cache') :
    ∃ desc cache₁, catalog.descriptor n = some desc ∧ cache.updateOne desc = .ok cache₁ ∧
      executeOnTaskManagers catalog cache₁ names = .ok cache' := by
  obtain ⟨descs, hdescs, h⟩ := bind_eq_ok h
  rw [mapM_cons] at hdescs
  obtain ⟨desc, hdesc, hdescs⟩ := bind_eq_ok hdescs
  obtain ⟨rest, hrest, hdescs⟩ := bind_eq_ok hdescs
  obtain rfl : desc :: rest = descs := ok.inj hdescs
  obtain ⟨cache₁, hcache₁, h⟩ := bind_eq_ok h
  refine ⟨desc, cache₁, storageDescriptor_eq_ok.1 hdesc, hcache₁, ?_⟩
  rw [executeOnTaskManagers, hrest]
  exact h

/-- A plan leaves alone the tables it does not refer to. -/
lemma holds_of_not_mem (hslot : cache.Holds t slot) (ht : t ∉ names)
    (h : executeOnTaskManagers catalog cache names = .ok cache') : cache'.Holds t slot := by
  induction names generalizing cache with
  | nil =>
    obtain rfl : cache = cache' := ok.inj h
    exact hslot
  | cons n names ih =>
    obtain ⟨desc, cache₁, hdesc, hcache₁, h⟩ := onTaskManagers_cons h
    have hne : tableNameOf desc ≠ t := by
      rw [tableNameOf_descriptor hdesc]
      exact Ne.symm (ne_of_not_mem_cons ht)
    exact ih (hslot.updateOne_of_ne hcache₁ hne) (not_mem_of_not_mem_cons ht) h

/-- A plan that refers to a table refreshes it, however often and wherever it is named. -/
lemma holds_of_mem (hslot : cache.Holds t slot) (ht : t ∈ names)
    (h : executeOnTaskManagers catalog cache names = .ok cache') :
    ∃ desc, catalog.descriptor t = some desc ∧ cache'.Holds t (refresh slot ⟨desc, []⟩) := by
  induction names generalizing cache slot with
  | nil => cases ht
  | cons n names ih =>
    obtain ⟨desc, cache₁, hdesc, hcache₁, h⟩ := onTaskManagers_cons h
    by_cases hn : n = t
    · subst hn
      have hslot₁ := hslot.updateOne hcache₁ (tableNameOf_descriptor hdesc)
      by_cases hmem : n ∈ names
      · obtain ⟨desc', hdesc', hslot'⟩ := ih hslot₁ hmem h
        obtain rfl : desc = desc' := some.inj (hdesc.symm.trans hdesc')
        exact ⟨desc, hdesc, by simpa [refresh] using hslot'⟩
      · exact ⟨desc, hdesc, holds_of_not_mem hslot₁ hmem h⟩
    · have hne : tableNameOf desc ≠ t := by rwa [tableNameOf_descriptor hdesc]
      exact ih (hslot.updateOne_of_ne hcache₁ hne)
        ((mem_cons.1 ht).resolve_left (Ne.symm hn)) h

end Plans

/-! ### Histories -/

/-- The cluster is in the state that the life of the name `t` says. -/
structure Tracks (t : String) (s : Cluster G) (l : Lifetime G) : Prop where
  numCopies : s.tempTableCounter = l.numCopies
  descriptor : s.catalog.descriptor t = l.descriptor
  cache : s.cache.Holds t (held l.references)
  current : ∀ desc ∈ l.descriptor, ∀ r ∈ l.current, r.version = desc

lemma tempName_ne (tableName : String) (counter : Nat) :
    tempName tableName counter ≠ tableName := by
  intro h
  have hlen := congrArg String.length h
  simp only [tempName, String.length_append] at hlen
  have : "__pq_".length = 5 := rfl
  omega

namespace Catalog

variable {catalog catalog' : Catalog} {t tableName : String} {columns : List ColumnTraits}
  {storage : StorageKind}

lemma descriptor_update {info : Option TableInfo} :
    descriptor (update catalog tableName info) t =
      if tableName = t then info.map fun info => Lifetime.created t info.columns info.storage
      else catalog.descriptor t := by
  split_ifs with ht
  · subst ht
    simp [descriptor]
  · simp [descriptor, update_of_ne (Ne.symm ht)]

lemma descriptor_registerTable
    (h : catalog.registerTable tableName columns storage = .ok catalog') :
    catalog'.descriptor t = if tableName = t then some (Lifetime.created t columns storage)
      else catalog.descriptor t := by
  unfold registerTable at h
  split_ifs at h with hsome hnd
  obtain rfl := ok.inj h
  exact descriptor_update

lemma descriptor_unregisterTable (h : catalog.unregisterTable tableName = .ok catalog') :
    catalog'.descriptor t = if tableName = t then none else catalog.descriptor t := by
  unfold unregisterTable at h
  split_ifs at h
  obtain rfl := ok.inj h
  exact descriptor_update

end Catalog

namespace Tracks

variable {t : String} {s s' : Cluster G} {l : Lifetime G} {desc : Descriptor}

lemma initial (t : String) : Tracks t ({} : Cluster G) {} where
  numCopies := rfl
  descriptor := rfl
  cache := by simp [RemoteTableCache.Holds, Lifetime.references, held]
  current := by simp

variable {catalog : Catalog}

lemma create (h : Tracks t s l) (hdesc : catalog.descriptor t = some desc) :
    Tracks t { s with catalog := catalog } (l.create desc) where
  numCopies := h.numCopies
  descriptor := hdesc
  cache := by simpa [Lifetime.references, Lifetime.create] using h.cache
  current := by simp [Lifetime.create]

lemma drop (h : Tracks t s l) (hdesc : catalog.descriptor t = none) :
    Tracks t { s with catalog := catalog } l.drop where
  numCopies := h.numCopies
  descriptor := hdesc
  cache := h.cache
  current := by simp [Lifetime.drop]

lemma other (h : Tracks t s l) (hdesc : catalog.descriptor t = s.catalog.descriptor t) :
    Tracks t { s with catalog := catalog } l :=
  { h with descriptor := hdesc.trans h.descriptor }

variable {cache : RemoteTableCache G}

lemma refer (h : Tracks t s l) {rowGroups : List G} (hdesc : s.catalog.descriptor t = some desc)
    (hcache : cache.Holds t (refresh (held l.references) ⟨desc, rowGroups⟩)) :
    Tracks t { s with cache := cache } (l.refer rowGroups) := by
  have hl : l.descriptor = some desc := h.descriptor.symm.trans hdesc
  have hrefer : l.refer rowGroups = { l with current := l.current ++ [⟨desc, rowGroups⟩] } := by
    simp [Lifetime.refer, hl]
  rw [hrefer]
  refine ⟨h.numCopies, h.descriptor, ?_, ?_⟩
  · rwa [Lifetime.references, ← append_assoc, held_concat]
  · intro desc' hdesc' r hr
    rcases mem_append.1 hr with hr | hr
    · exact h.current desc' hdesc' r hr
    · obtain rfl := mem_singleton.1 hr
      exact some.inj (hl.symm.trans hdesc')

variable {tableName : String} {columns : List ColumnTraits} {storage : StorageKind}

section

variable (h : Tracks t s l)
include h

lemma registerTable (hcat : s.catalog.registerTable tableName columns storage = .ok catalog) :
    Tracks t { s with catalog := catalog }
      (if tableName = t then l.create (Lifetime.created t columns storage) else l) := by
  have hdesc := descriptor_registerTable (t := t) hcat
  split_ifs at hdesc ⊢ with ht
  · exact h.create hdesc
  · exact h.other hdesc

lemma unregisterTable (hcat : s.catalog.unregisterTable tableName = .ok catalog) :
    Tracks t { s with catalog := catalog } (if tableName = t then l.drop else l) := by
  have hdesc := descriptor_unregisterTable (t := t) hcat
  split_ifs at hdesc ⊢ with ht
  · exact h.drop hdesc
  · exact h.other hdesc

lemma createTable (hs' : s.execute (.createTable tableName columns storage) = .ok s') :
    Tracks t s' (l.step t (.createTable tableName columns storage)) := by
  obtain ⟨catalog, hcat, hs'⟩ := bind_eq_ok hs'
  obtain rfl := ok.inj hs'
  exact h.registerTable hcat

lemma dropTable (hs' : s.execute (.dropTable tableName) = .ok s') :
    Tracks t s' (l.step t (.dropTable tableName)) := by
  obtain ⟨catalog, hcat, hs'⟩ := bind_eq_ok hs'
  obtain rfl := ok.inj hs'
  exact h.unregisterTable hcat

lemma copy {filePaths : List String} {rowGroups : List G}
    (hs' : s.execute (.copy tableName columns filePaths rowGroups) = .ok s') :
    Tracks t s' (l.step t (.copy tableName columns filePaths rowGroups)) := by
  obtain ⟨catalog, hcat, hs'⟩ := bind_eq_ok hs'
  obtain ⟨cache₁, hcache₁, hs'⟩ := bind_eq_ok hs'
  obtain ⟨cache, hwrite, hs'⟩ := bind_eq_ok hs'
  obtain rfl := ok.inj hs'
  have hreg := h.registerTable hcat
  simp only [Lifetime.step, ← h.numCopies]
  by_cases hname : tableName = t
  · -- the table that is copied into
    subst hname
    rw [if_neg (tempName_ne _ _)] at hreg
    obtain ⟨desc, hdesc, hslot⟩ := holds_of_mem hreg.cache (by simp) hcache₁
    rw [if_pos rfl]
    exact { hreg.refer hdesc (hslot.write hwrite) with numCopies := rfl }
  · rw [if_neg hname]
    by_cases htemp : tempName tableName s.tempTableCounter = t
    · -- the table that is read
      rw [if_pos htemp] at hreg ⊢
      obtain ⟨desc, hdesc, hslot⟩ := holds_of_mem hreg.cache (by simp [htemp]) hcache₁
      exact { hreg.refer hdesc (hslot.write_of_ne hwrite hname) with numCopies := rfl }
    · rw [if_neg htemp] at hreg ⊢
      have hslot := holds_of_not_mem hreg.cache (by simp [Ne.symm hname, Ne.symm htemp]) hcache₁
      exact { hreg with cache := hslot.write_of_ne hwrite hname, numCopies := rfl }

/-- Every successful statement keeps the cluster in step with the life of the name. -/
lemma execute {statement : Statement G} (hs' : s.execute statement = .ok s') :
    Tracks t s' (l.step t statement) := by
  cases statement with
  | createTable => exact h.createTable hs'
  | createOrReplaceTable =>
    simp only [Cluster.execute] at hs'
    split_ifs at hs' with hhas
    · obtain ⟨dropped, hdropped, hs'⟩ := bind_eq_ok hs'
      obtain ⟨catalog, hcat, hs'⟩ := bind_eq_ok hs'
      obtain rfl := ok.inj hs'
      have h' := (h.unregisterTable hdropped).registerTable hcat
      simp only [Lifetime.step]
      -- the creation puts in order what dropping the table has left
      split_ifs at h' ⊢ with ht <;> exact h'
    · exact h.createTable hs'
  | dropTable => exact h.dropTable hs'
  | dropTableIfExists =>
    simp only [Cluster.execute] at hs'
    split_ifs at hs' with hhas
    · exact h.dropTable hs'
    · obtain rfl := ok.inj hs'
      simp only [Lifetime.step]
      split_ifs with ht
      · subst ht
        exact h.drop (by simpa [Catalog.descriptor, hasTable] using hhas)
      · exact h
  | copy => exact h.copy hs'
  | query =>
    obtain ⟨cache, hcache, hs'⟩ := bind_eq_ok hs'
    obtain rfl := ok.inj hs'
    simp only [Lifetime.step]
    split_ifs with ht
    · obtain ⟨desc, hdesc, hslot⟩ := holds_of_mem h.cache ht hcache
      exact h.refer hdesc hslot
    · exact { h with cache := holds_of_not_mem h.cache ht hcache }

end

end Tracks

/-- After every history the cluster is in the state that the lives of the names say. -/
theorem tracks_of_run (t : String) {history : List (Statement G)} {s : Cluster G}
    (h : run {} history = .ok s) : Tracks t s (lifetime t history) := by
  refine foldlM_induction (P := fun history s => Tracks t s (lifetime t history)) h
    (Tracks.initial t) fun history statement s₁ s₂ hs₁ hs₂ => ?_
  rw [lifetime, foldl_append]
  exact hs₁.execute hs₂

/-! ### What a query finds -/

/-- A query finds in a table exactly the row groups appended since the table was last created, if
and only if none was left behind by an earlier incarnation with the same descriptor. -/
theorem rowGroups_eq_appended_iff {history : List (Statement G)} {s s' : Cluster G}
    {tableNames : List String} {t : String} {columnNames : List String}
    {dataTypes : List DataType} (hrun : run {} history = .ok s)
    (hquery : s.execute (.query tableNames) = .ok s') (ht : t ∈ tableNames)
    (hdesc : (lifetime t history).descriptor = some (.boostSharedMemory t columnNames dataTypes)) :
    ∃ rowGroups, s'.cache.getTable t = .ok (.inMemoryTable columnNames dataTypes rowGroups) ∧
      (rowGroups = (lifetime t history).appended ↔ (lifetime t history).StartsEmpty) := by
  have htracks := tracks_of_run t hrun
  obtain ⟨cache, hcache, hs'⟩ := bind_eq_ok hquery
  obtain rfl := ok.inj hs'
  obtain ⟨desc, hcatalog, -, table, htable, hresolved⟩ := holds_of_mem htracks.cache ht hcache
  obtain rfl : desc = .boostSharedMemory t columnNames dataTypes :=
    some.inj (hcatalog.symm.trans (htracks.descriptor.trans hdesc))
  obtain rfl := ok.inj htable
  refine ⟨_, by rw [RemoteTableCache.getTable, hresolved]; rfl, ?_⟩
  simp only [nil_append, append_nil]
  rw [Lifetime.appended, Lifetime.references,
    contents_held_eq_iff _ _ (htracks.current _ (mem_def.2 hdesc))]
  simp [Lifetime.StartsEmpty, hdesc]

section Reload

/-- A table is created and loaded with one row group. -/
def load : List (Statement Nat) :=
  [.createTable "t" [⟨"a", .int64⟩] .boostSharedMemory, .copy "t" [⟨"a", .int64⟩] ["t.parquet"] [1]]

/-- The table is then dropped and created again with the same column. -/
def reload : List (Statement Nat) :=
  load ++ [.dropTable "t", .createTable "t" [⟨"a", .int64⟩] .boostSharedMemory]

/-- The table is replaced by one whose column has another type, and loaded again. -/
def retype : List (Statement Nat) :=
  load ++ [.createOrReplaceTable "t" [⟨"a", .string⟩] .boostSharedMemory,
    .copy "t" [⟨"a", .string⟩] ["s.parquet"] [2]]

/-- What a query finds for the table after a history. -/
def resolve (history : List (Statement Nat)) : Except String (StorageTable Nat) := do
  let s ← run {} history
  let s ← s.execute (.query ["t"])
  s.cache.getTable "t"

theorem rowGroups_eq_appended_retype : (lifetime "t" retype).StartsEmpty ∧ ∃ s s' : Cluster Nat,
      run {} retype = .ok s ∧ s.execute (.query ["t"]) = .ok s' ∧
      ∃ rowGroups, s'.cache.getTable "t" = .ok (.inMemoryTable ["a"] [.string] rowGroups) ∧
        (rowGroups = (lifetime "t" retype).appended ↔ (lifetime "t" retype).StartsEmpty) := by
  have hempty : (lifetime "t" retype).StartsEmpty := by
    intro desc hdesc r hr
    obtain rfl := some.inj hdesc
    cases hr
  obtain ⟨s, s', hs, hs'⟩ : ∃ s s' : Cluster Nat,
      run {} retype = .ok s ∧ s.execute (.query ["t"]) = .ok s' := ⟨_, _, rfl, rfl⟩
  exact ⟨hempty, s, s', hs, hs', rowGroups_eq_appended_iff hs hs' (by decide) rfl⟩

/-- The second incarnation starts with the row group of the first. -/
theorem rowGroups_ne_appended_reload : resolve reload = .ok (.inMemoryTable ["a"] [.int64] [1]) ∧
      (lifetime "t" reload).appended = [] :=
  ⟨rfl, rfl⟩

end Reload

end Gqe.NodeManager
