import Gqe.Expression
import Mathlib.Data.List.Nodup

/-!
# Statements on the node manager

The node manager keeps the catalog (`catalog.cpp`) and runs DDL statements on it alone
(`logical/from_substrait.cpp`). A plan is sent to the task managers together with a descriptor for
each table it refers to (`node_manager/node_manager.cpp`), from which a task manager keeps its own
table objects (`task_manager/remote_table_cache.cpp`). A task manager here is any one of them: all
are sent the same plans and descriptors, and none sees the tables of another.
-/

namespace Gqe.NodeManager

open List Function

/-! ### Storage kinds and descriptors -/

/-- `storage_kind::type`; the process-local kinds are told apart by nothing here. -/
inductive StorageKind where
  | systemMemory | numaMemory | numaPinnedMemory | pinnedMemory | deviceMemory | managedMemory
  | numaPoolMemory
  | boostSharedMemory
  | sharedNumaPoolMemory (numaNodeId : Int)
  | parquetFile (filePaths : List String)
  deriving DecidableEq

inductive Descriptor where
  | boostSharedMemory (tableName : String) (columnNames : List String)
      (dataTypes : List DataType)
  | sharedNumaPoolMemory (tableName : String) (numaNodeId : Int) (columnNames : List String)
      (dataTypes : List DataType)
  | parquetFile (tableName : String) (filePaths : List String)
  | localMemory (tableName : String)
  deriving DecidableEq

def tableNameOf : Descriptor → String
  | .boostSharedMemory tableName _ _ => tableName
  | .sharedNumaPoolMemory tableName _ _ _ => tableName
  | .parquetFile tableName _ => tableName
  | .localMemory tableName => tableName

def makeDescriptor (kind : StorageKind) (tableName : String) (columnNames : List String)
    (columnTypes : List DataType) : Descriptor :=
  match kind with
  | .parquetFile filePaths => .parquetFile tableName filePaths
  | .boostSharedMemory => .boostSharedMemory tableName columnNames columnTypes
  | .sharedNumaPoolMemory numaNodeId =>
    .sharedNumaPoolMemory tableName numaNodeId columnNames columnTypes
  | _ => .localMemory tableName

@[simp]
lemma tableNameOf_makeDescriptor (kind : StorageKind) (tableName : String)
    (columnNames : List String) (columnTypes : List DataType) :
    tableNameOf (makeDescriptor kind tableName columnNames columnTypes) = tableName := by
  cases kind <;> rfl

/-! ### The catalog -/

/-- `column_traits`, as far as a table is described by them. -/
structure ColumnTraits where
  name : String
  dataType : DataType
  deriving DecidableEq

/-- `table_info_type`: a registered table has no two columns of one name. -/
structure TableInfo where
  columns : List ColumnTraits
  storage : StorageKind
  nodup : (columns.map (·.name)).Nodup

namespace TableInfo

def columnNames (info : TableInfo) : List String := info.columns.map (·.name)

/-- The entry of `_column_name_to_type` for a name. -/
def columnNameToType (info : TableInfo) (name : String) : Option DataType :=
  (info.columns.find? (·.name = name)).map (·.dataType)

def columnTypes (info : TableInfo) : List DataType :=
  info.columnNames.filterMap info.columnNameToType

lemma columnNameToType_name (info : TableInfo) {column : ColumnTraits}
    (h : column ∈ info.columns) : info.columnNameToType column.name = some column.dataType := by
  have hfind : info.columns.find? (·.name = column.name) = some column := by
    obtain ⟨found, hfound⟩ := Option.isSome_iff_exists.1
      (find?_isSome.2 ⟨column, h, decide_eq_true rfl⟩ :
        (info.columns.find? (·.name = column.name)).isSome)
    have hname : found.name = column.name := by simpa using find?_some hfound
    rw [hfound, inj_on_of_nodup_map info.nodup (mem_of_find?_eq_some hfound) h hname]
  simp [columnNameToType, hfind]

lemma columnTypes_eq (info : TableInfo) : info.columnTypes = info.columns.map (·.dataType) := by
  rw [columnTypes, columnNames, filterMap_map, ← filterMap_eq_map]
  apply filterMap_congr
  intro column h
  exact info.columnNameToType_name h

end TableInfo

/-- `catalog::_table_entries`. -/
abbrev Catalog := String → Option TableInfo

namespace Catalog

def registerTable (catalog : Catalog) (tableName : String) (columns : List ColumnTraits)
    (storage : StorageKind) : Except String Catalog :=
  if (catalog tableName).isSome then
    .error ("table \"" ++ tableName ++ "\" is already registered")
  else if h : (columns.map (·.name)).Nodup then
    .ok (update catalog tableName (some ⟨columns, storage, h⟩))
  else .error "column name already exists when registering table"

def hasTable (catalog : Catalog) (tableName : String) : Bool := (catalog tableName).isSome

def unregisterTable (catalog : Catalog) (tableName : String) : Except String Catalog :=
  if catalog.hasTable tableName then .ok (update catalog tableName none)
  else .error ("cannot unregister table \"" ++ tableName ++ "\": not found in the catalog")

def storageDescriptor (catalog : Catalog) (tableName : String) : Except String Descriptor :=
  match catalog tableName with
  | none => .error ("cannot find table \"" ++ tableName ++ "\" in the catalog")
  | some info => .ok (makeDescriptor info.storage tableName info.columnNames info.columnTypes)

end Catalog

/-! ### The tables of a task manager -/

/-- `storage::table`: a Parquet table, or an in-memory table with its row groups. -/
inductive StorageTable (G : Type) where
  | parquetTable (filePaths : List String)
  | inMemoryTable (columnNames : List String) (columnTypes : List DataType) (rowGroups : List G)
  deriving DecidableEq

variable {G : Type}

/-- What the write tasks of one task manager add to a table: the row groups of an in-memory table
grow, a Parquet table is written to files. -/
def StorageTable.append (table : StorageTable G) (rowGroups : List G) : StorageTable G :=
  match table with
  | .parquetTable filePaths => .parquetTable filePaths
  | .inMemoryTable columnNames columnTypes old =>
    .inMemoryTable columnNames columnTypes (old ++ rowGroups)

def makeTable : Descriptor → Except String (StorageTable G)
  | .parquetFile _ filePaths => .ok (.parquetTable filePaths)
  | .boostSharedMemory _ columnNames dataTypes => .ok (.inMemoryTable columnNames dataTypes [])
  | .sharedNumaPoolMemory tableName _ _ _ =>
    .error ("Table '" ++ tableName ++ "': shared NUMA pool memory storage not yet implemented")
  | .localMemory tableName =>
    .error ("Table '" ++ tableName ++ "': local memory descriptor cannot be used in a task manager")

structure RemoteTableCache (G : Type) where
  descriptors : List Descriptor := []
  tables : String → Option (StorageTable G) := fun _ => none

namespace RemoteTableCache

/-- The body of the loop of `remote_table_cache::update`. -/
def updateOne (cache : RemoteTableCache G) (desc : Descriptor) :
    Except String (RemoteTableCache G) :=
  if desc ∈ cache.descriptors then .ok cache
  else do
    let name := tableNameOf desc
    let table ← makeTable desc
    .ok { descriptors := desc :: cache.descriptors.filter (tableNameOf · ≠ name)
          tables := update cache.tables name (some table) }

def update (cache : RemoteTableCache G) (descriptors : List Descriptor) :
    Except String (RemoteTableCache G) :=
  descriptors.foldlM updateOne cache

def getTable (cache : RemoteTableCache G) (tableName : String) : Except String (StorageTable G) :=
  match cache.tables tableName with
  | none => .error ("Table '" ++ tableName ++ "' not found in remote table cache")
  | some table => .ok table

/-- The write tasks of a plan append row groups to the table that the cache resolves. -/
def write (cache : RemoteTableCache G) (tableName : String) (rowGroups : List G) :
    Except String (RemoteTableCache G) := do
  let table ← cache.getTable tableName
  .ok { cache with
        tables := Function.update cache.tables tableName (some (table.append rowGroups)) }

end RemoteTableCache

/-! ### Statements -/

/-- The statements that reach the node manager. A COPY comes with the files it reads and the row
groups that the task manager makes of them; a query, with the tables its plan refers to. -/
inductive Statement (G : Type) where
  | createTable (tableName : String) (columns : List ColumnTraits) (storage : StorageKind)
  | createOrReplaceTable (tableName : String) (columns : List ColumnTraits)
      (storage : StorageKind)
  | dropTable (tableName : String)
  | dropTableIfExists (tableName : String)
  | copy (tableName : String) (columns : List ColumnTraits) (filePaths : List String)
      (rowGroups : List G)
  | query (tableNames : List String)
  deriving DecidableEq

/-- The node manager and one of its task managers. -/
structure Cluster (G : Type) where
  catalog : Catalog := fun _ => none
  tempTableCounter : Nat := 0
  cache : RemoteTableCache G := {}

/-- The name of the Parquet table that a COPY reads. -/
def tempName (tableName : String) (counter : Nat) : String :=
  "__pq_" ++ tableName ++ "_" ++ toString counter

/-- `execute_on_task_managers`, up to the run of the plan: the task manager updates its cache with
the descriptors of the referenced tables. -/
def executeOnTaskManagers (catalog : Catalog) (cache : RemoteTableCache G)
    (referencedTables : List String) : Except String (RemoteTableCache G) := do
  let tableCatalog ← referencedTables.mapM catalog.storageDescriptor
  cache.update tableCatalog

/-- `substrait_parser::from_plan` for one relation, and the run of the plan it gives. -/
def Cluster.execute (s : Cluster G) : Statement G → Except String (Cluster G)
  | .createTable tableName columns storage => do
    let catalog ← s.catalog.registerTable tableName columns storage
    .ok { s with catalog := catalog }
  | .createOrReplaceTable tableName columns storage => do
    let catalog ←
      if s.catalog.hasTable tableName then s.catalog.unregisterTable tableName else .ok s.catalog
    let catalog ← catalog.registerTable tableName columns storage
    .ok { s with catalog := catalog }
  | .dropTable tableName => do
    let catalog ← s.catalog.unregisterTable tableName
    .ok { s with catalog := catalog }
  | .dropTableIfExists tableName =>
    if s.catalog.hasTable tableName then do
      let catalog ← s.catalog.unregisterTable tableName
      .ok { s with catalog := catalog }
    else .ok s
  | .copy tableName columns filePaths rowGroups => do
    let temp := tempName tableName s.tempTableCounter
    let catalog ← s.catalog.registerTable temp columns (.parquetFile filePaths)
    let cache ← executeOnTaskManagers catalog s.cache [tableName, temp]
    let cache ← cache.write tableName rowGroups
    .ok { catalog := catalog, tempTableCounter := s.tempTableCounter + 1, cache := cache }
  | .query tableNames => do
    let cache ← executeOnTaskManagers s.catalog s.cache tableNames
    .ok { s with cache := cache }

/-- The statements of a history one after another, all of them successful. -/
def Cluster.run (s : Cluster G) (history : List (Statement G)) : Except String (Cluster G) :=
  history.foldlM Cluster.execute s

/-! ### Statements that throw -/

/-- The catalog that the new table is registered in: a table to be replaced is removed before. -/
def Catalog.remaining (catalog : Catalog) (replace : Bool) (tableName : String) : Catalog :=
  if replace && catalog.hasTable tableName then update catalog tableName none else catalog

/-- The catalog after a CREATE TABLE or, if `replace`, a CREATE OR REPLACE TABLE, whether it throws
or not. `construct` says what the constructor of the storage of a table throws, if it does. -/
def Catalog.createTable (construct : StorageKind → Option String) (catalog : Catalog)
    (replace : Bool) (tableName : String) (columns : List ColumnTraits) (storage : StorageKind) :
    Catalog × Except String Unit :=
  match (catalog.remaining replace tableName).registerTable tableName columns storage with
  | .error what => (catalog.remaining replace tableName, .error what)
  | .ok registered =>
    match construct storage with
    | some what => (catalog.remaining replace tableName, .error what)
    | none => (registered, .ok ())

lemma Catalog.createTable_of_throws {construct : StorageKind → Option String} {catalog : Catalog}
    {replace : Bool} {tableName : String} {columns : List ColumnTraits} {storage : StorageKind}
    {what : String}
    (h : (catalog.createTable construct replace tableName columns storage).2 = .error what) :
    (catalog.createTable construct replace tableName columns storage).1 =
      catalog.remaining replace tableName := by
  unfold createTable at h ⊢
  split at h
  · rfl
  · split at h
    · rfl
    · cases h

/-- A statement that throws leaves the catalog as it was, unless it has already removed the table
that it was to replace: by one with two columns of the same name, or whose storage cannot be
constructed. -/
theorem Catalog.createTable_atomic_iff (construct : StorageKind → Option String) (catalog : Catalog)
    (replace : Bool) (tableName : String) (columns : List ColumnTraits) (storage : StorageKind) :
    (∀ what, (catalog.createTable construct replace tableName columns storage).2 = .error what →
      (catalog.createTable construct replace tableName columns storage).1 = catalog) ↔
    (replace = true → catalog.hasTable tableName = true →
      (columns.map (·.name)).Nodup ∧ construct storage = none) := by
  by_cases hreplace : replace = true ∧ catalog.hasTable tableName = true
  · obtain ⟨rfl, htable⟩ := hreplace
    have hremaining : catalog.remaining true tableName = update catalog tableName none := by
      simp [remaining, htable]
    have hremoved : catalog.remaining true tableName ≠ catalog := fun heq => by
      rw [hremaining] at heq
      simp [hasTable, ← congrFun heq tableName] at htable
    constructor
    · intro h _ _
      by_contra hnot
      obtain ⟨what, hthrows⟩ :
          ∃ what, (catalog.createTable construct true tableName columns storage).2 =
            .error what := by
        rw [createTable, registerTable, hremaining]
        by_cases hnodup : (columns.map (·.name)).Nodup
        · obtain ⟨what, hwhat⟩ := Option.ne_none_iff_exists'.1 fun hnone => hnot ⟨hnodup, hnone⟩
          exact ⟨what, by simp [hnodup, hwhat]⟩
        · exact ⟨_, by simp [hnodup]; rfl⟩
      exact hremoved ((createTable_of_throws hthrows).symm.trans (h what hthrows))
    · intro h what hthrows
      obtain ⟨hnodup, hconstruct⟩ := h rfl htable
      simp [createTable, hremaining, registerTable, hnodup, hconstruct] at hthrows
  · refine ⟨fun _ hr htable => absurd ⟨hr, htable⟩ hreplace, fun _ what hthrows => ?_⟩
    rw [createTable_of_throws hthrows, remaining, if_neg (by simpa using hreplace)]

/-- The table `t` is lost if it is to be replaced by one with two columns `a`. -/
theorem Catalog.createTable_duplicateColumns : ∃ catalog : Catalog, catalog.hasTable "t" = true ∧
      (catalog.createTable (fun _ => none) true "t" [⟨"a", .int64⟩, ⟨"a", .int64⟩]
        .systemMemory).2 =
        .error "column name already exists when registering table" ∧
      (catalog.createTable (fun _ => none) true "t" [⟨"a", .int64⟩, ⟨"a", .int64⟩]
        .systemMemory).1.hasTable "t" = false :=
  ⟨update (fun _ => none) "t" (some ⟨[], .systemMemory, .nil⟩), rfl, rfl, rfl⟩

end Gqe.NodeManager
