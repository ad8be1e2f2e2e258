import Gqe.Lib.Chunking
import Gqe.Lib.Fallible
import Gqe.ZoneMap.Basic
import Mathlib.Algebra.GroupWithZero.Nat
import Mathlib.Algebra.Ring.Int.Defs

/-!
# Read and write tasks

How the storage makes tasks of the row groups of an in-memory table (`storage/in_memory.cpp`) and
of the files of a Parquet table (`storage/parquet.cpp`): row groups and files are dealt out in
chunks of one size, rounded up.
-/

namespace Gqe.Storage

open Chunking Fallible ZoneMap List

/-- What ends a function early: an exception, or an operation that has no result. -/
inductive Abort where
  | throws (what : String)
  | divisionByZero
  | frontOfEmpty
  deriving DecidableEq

/-- The size of the chunks for a number of tasks, which is not checked. -/
def chunkSize (numItems parallelism : Nat) : Except Abort Nat :=
  if parallelism = 0 then .error .divisionByZero else .ok (divideRoundUp numItems parallelism)

lemma divideRoundUp_pos {a b : Nat} (ha : 0 < a) (hb : 0 < b) : 0 < divideRoundUp a b := by
  rw [lt_divideRoundUp hb]
  simpa using ha

/-! ### Parquet -/

section Parquet
variable {T : Type}

/-- `writeable_view::task_parameters`. -/
structure WriteParameters (T : Type) where
  taskId : Nat
  input : T
  deriving DecidableEq

structure ParquetWriteTask (T : Type) where
  taskId : Nat
  stageId : Nat
  input : T
  filePaths : List String
  columnNames : List String
  dataTypes : List DataType
  deriving DecidableEq

def getWriteTasks (filePaths : List String) (taskParameters : List (WriteParameters T))
    (stageId : Nat) (columnNames : List String) (dataTypes : List DataType) :
    Except Abort (List (ParquetWriteTask T)) :=
  if filePaths.length < taskParameters.length then
    .error (.throws "Less than one Parquet output file per worker")
  else do
    let maxNfilesPerInstance ← chunkSize filePaths.length taskParameters.length
    return (deal maxNfilesPerInstance filePaths taskParameters 0).map fun (task, filePathsTask) =>
      ⟨task.taskId, stageId, task.input, filePathsTask, columnNames, dataTypes⟩

/-- There is one task for each input, and each task has files of its own. -/
structure StoresEveryInput (taskParameters : List (WriteParameters T))
    (tasks : List (ParquetWriteTask T)) : Prop where
  inputs : tasks.map (fun t => (⟨t.taskId, t.input⟩ : WriteParameters T)) = taskParameters
  ne_nil : ∀ t ∈ tasks, t.filePaths ≠ []
  disjoint : tasks.Pairwise fun t u => t.filePaths.Disjoint u.filePaths

/-- **Parquet writes.** If there are enough files, every input is written exactly if the chunks of
all inputs but the last do not use up the files. -/
theorem storesEveryInput_getWriteTasks_iff {filePaths : List String}
    {taskParameters : List (WriteParameters T)} (hne : taskParameters ≠ [])
    (hle : taskParameters.length ≤ filePaths.length) (hnodup : filePaths.Nodup)
    (stageId : Nat) (columnNames : List String) (dataTypes : List DataType) :
    (∃ tasks, getWriteTasks filePaths taskParameters stageId columnNames dataTypes = .ok tasks ∧
      StoresEveryInput taskParameters tasks) ↔
    (taskParameters.length - 1) * divideRoundUp filePaths.length taskParameters.length <
      filePaths.length := by
  have hpos : 0 < taskParameters.length := length_pos_of_ne_nil hne
  have hchunk := divideRoundUp_pos (Nat.lt_of_lt_of_le hpos hle) hpos
  set chunk := divideRoundUp filePaths.length taskParameters.length with hchunk_eq
  have hserved : (deal chunk filePaths taskParameters 0).map Prod.fst = taskParameters ↔
      (taskParameters.length - 1) * chunk < filePaths.length := by
    rw [map_fst_deal_eq_iff hne 0, Nat.zero_add]
  have hok : getWriteTasks filePaths taskParameters stageId columnNames dataTypes =
      .ok ((deal chunk filePaths taskParameters 0).map fun (task, filePathsTask) =>
        ⟨task.taskId, stageId, task.input, filePathsTask, columnNames, dataTypes⟩) := by
    rw [getWriteTasks, if_neg (Nat.not_lt.2 hle), chunkSize, if_neg hpos.ne']
    rfl
  rw [hok, ← hserved]
  constructor
  · rintro ⟨tasks, htasks, hstores⟩
    obtain rfl := Except.ok.inj htasks
    have hinputs := hstores.inputs
    rw [map_map] at hinputs
    exact hinputs
  · intro h
    refine ⟨_, rfl, ?_, ?_, ?_⟩
    · rw [map_map]
      exact h
    · simp only [mem_map]
      rintro _ ⟨x, hx, rfl⟩
      exact ne_nil_of_mem_deal hchunk hx
    · rw [pairwise_map]
      exact pairwise_disjoint_deal hnodup taskParameters 0

/-- Two inputs and four files. -/
theorem storesEveryInput_two_of_four :
    ∃ tasks, getWriteTasks ["a", "b", "c", "d"] [⟨0, "x"⟩, ⟨1, "y"⟩] 0 ["c0"] [.int64] = .ok tasks ∧
      StoresEveryInput [⟨0, "x"⟩, ⟨1, "y"⟩] tasks :=
  (storesEveryInput_getWriteTasks_iff (by decide) (by decide) (by decide) 0 ["c0"] [.int64]).2
    (by decide)

/-- Three inputs and four files: each task takes two files, and the third input is not written. -/
theorem getWriteTasks_three_of_four :
    (getWriteTasks ["a", "b", "c", "d"] [⟨0, "x"⟩, ⟨1, "y"⟩, ⟨2, "z"⟩] 0 ["c0"]
      [.int64]).toOption.map
      (·.map fun t => (t.input, t.filePaths)) = some [("x", ["a", "b"]), ("y", ["c", "d"])] := by
  decide

end Parquet

/-! ### In-memory tables -/

section InMemory
variable {V T : Type}

/-- `in_memory_table`: the row groups have the columns of the table, and their number is an
`int32_t`. -/
structure InMemoryTable (V : Type) where
  columnNames : List String
  columnTypes : List DataType
  rowGroups : List (Table V)
  length_columnTypes : columnTypes.length = columnNames.length
  types_rowGroup : ∀ rowGroup ∈ rowGroups, rowGroup.types = columnTypes
  length_rowGroups : rowGroups.length < 2 ^ 31

/-- `readable_view::task_parameters`. -/
structure ReadParameters (V T : Type) where
  taskId : Nat
  partialFilter : Option (Expr V)
  subqueryTasks : List T

structure InMemoryReadTask (V T : Type) where
  taskId : Nat
  stageId : Nat
  rowGroups : List (Table V)
  columnIndexes : List Nat
  dataTypes : List DataType
  zoneMapFilter : Option (ArrowExpr V)
  subqueries : List T

namespace InMemoryTable

@[simp] def maxConcurrentReaders (table : InMemoryTable V) : Nat := table.rowGroups.length

/-- `get_column_index`, with the exception of `std::unordered_map::at`. -/
def getColumnIndex (table : InMemoryTable V) (columnName : String) : Except Abort Nat :=
  if columnName ∈ table.columnNames then .ok (table.columnNames.idxOf columnName)
  else .error (.throws "_Map_base::at")

def columnType (table : InMemoryTable V) (columnName : String) : DataType :=
  table.columnTypes.getD (table.columnNames.idxOf columnName) .empty

def transformPartialFilter : Option (Expr V) → Except Abort (Option (ArrowExpr V))
  | none => .ok none
  | some e => (transform e).mapError .throws

def getReadTasks (table : InMemoryTable V) (taskParameters : List (ReadParameters V T))
    (stageId : Nat) (columnNames : List String) (dataTypes : List DataType) :
    Except Abort (List (InMemoryReadTask V T)) := do
  let columnIndexes ← columnNames.mapM table.getColumnIndex
  let maxNrowGroupsPerInstance ← chunkSize table.rowGroups.length taskParameters.length
  match taskParameters with
  | [] => .error .frontOfEmpty
  | front :: _ =>
    let zoneMapFilter ← transformPartialFilter front.partialFilter
    return (deal maxNrowGroupsPerInstance table.rowGroups taskParameters 0).map
      fun (task, rowGroupsChunk) => ⟨task.taskId, stageId, rowGroupsChunk, columnIndexes, dataTypes,
        zoneMapFilter, task.subqueryTasks⟩

/-- The read tasks of `visit(read_relation)`, whose first task id is the current one. -/
def scan (table : InMemoryTable V) (maxNumPartitions : Nat) (columnNames : List String)
    (dataTypes : List DataType) (partialFilter : Option (Expr V)) (subqueryTasks : List T)
    (currentTaskId currentStageId : Nat) : Except Abort (List (InMemoryReadTask V T)) :=
  let npartitions := min table.maxConcurrentReaders maxNumPartitions
  let taskParameters := (List.range npartitions).map fun i =>
    (⟨currentTaskId + i, partialFilter, subqueryTasks⟩ : ReadParameters V T)
  table.getReadTasks taskParameters currentStageId columnNames dataTypes

end InMemoryTable

/-- The types of the columns that `in_memory_read_task::execute` emits, given the row groups with
partitions that are not pruned. -/
@[simp] def InMemoryReadTask.resultTypes (task : InMemoryReadTask V T) (candidates : List (Table V))
    (isZeroCopyPossible : Bool) : List DataType :=
  if task.columnIndexes = [] then [.empty]
  else match candidates with
    | [] => task.dataTypes
    | rowGroup :: _ =>
      if isZeroCopyPossible then task.columnIndexes.map rowGroup.typeOf else task.dataTypes

variable {table : InMemoryTable V} {columnNames : List String}

lemma mapM_getColumnIndex (h : ∀ n ∈ columnNames, n ∈ table.columnNames) :
    columnNames.mapM table.getColumnIndex = .ok (columnNames.map table.columnNames.idxOf) := by
  induction columnNames with
  | nil => rfl
  | cons n ns ih =>
    have hn : table.getColumnIndex n = .ok (table.columnNames.idxOf n) := if_pos (h n (by simp))
    rw [mapM_cons, hn, ih fun m hm => h m (mem_cons_of_mem n hm)]
    rfl

/-- Without row groups, there are no task parameters to divide the row groups by. -/
lemma scan_of_no_rowGroups (h : table.rowGroups = [])
    (hnames : ∀ n ∈ columnNames, n ∈ table.columnNames) (maxNumPartitions : Nat)
    (dataTypes : List DataType) (partialFilter : Option (Expr V)) (subqueryTasks : List T)
    (taskId stageId : Nat) :
    table.scan maxNumPartitions columnNames dataTypes partialFilter subqueryTasks taskId stageId =
      .error .divisionByZero := by
  simp [InMemoryTable.scan, h, InMemoryTable.getReadTasks, mapM_getColumnIndex hnames]
  rfl

variable {zoneMapFilter : Option (ArrowExpr V)}

lemma getReadTasks_cons (hnames : ∀ n ∈ columnNames, n ∈ table.columnNames)
    {front : ReadParameters V T}
    (hfilt : InMemoryTable.transformPartialFilter front.partialFilter = .ok zoneMapFilter)
    (rest : List (ReadParameters V T)) (stageId : Nat) (dataTypes : List DataType) :
    table.getReadTasks (front :: rest) stageId columnNames dataTypes =
      .ok ((deal (divideRoundUp table.rowGroups.length (front :: rest).length) table.rowGroups
        (front :: rest) 0).map fun (task, rowGroupsChunk) => ⟨task.taskId, stageId, rowGroupsChunk,
          columnNames.map table.columnNames.idxOf, dataTypes, zoneMapFilter,
          task.subqueryTasks⟩) := by
  rw [InMemoryTable.getReadTasks, mapM_getColumnIndex hnames]
  dsimp only
  rw [hfilt]
  rfl

/-- The read tasks of a table with row groups. -/
lemma exists_scan_eq {maxNumPartitions : Nat} (hmax : 1 ≤ maxNumPartitions)
    (h : table.rowGroups ≠ []) (hnames : ∀ n ∈ columnNames, n ∈ table.columnNames)
    {partialFilter : Option (Expr V)}
    (hfilter : InMemoryTable.transformPartialFilter partialFilter = .ok zoneMapFilter)
    (dataTypes : List DataType) (subqueryTasks : List T) (taskId stageId : Nat) :
    ∃ params : List (ReadParameters V T),
      params.length = min table.rowGroups.length maxNumPartitions ∧
      table.scan maxNumPartitions columnNames dataTypes partialFilter subqueryTasks taskId stageId =
        .ok ((deal (divideRoundUp table.rowGroups.length params.length)
          table.rowGroups params 0).map
          fun (task, rowGroupsChunk) => ⟨task.taskId, stageId, rowGroupsChunk,
            columnNames.map table.columnNames.idxOf, dataTypes, zoneMapFilter,
            task.subqueryTasks⟩) := by
  obtain ⟨n, hn⟩ : ∃ n, min table.rowGroups.length maxNumPartitions = n + 1 :=
    ⟨_, (Nat.succ_pred_eq_of_pos (lt_min (length_pos_of_ne_nil h) hmax)).symm⟩
  rw [InMemoryTable.scan, InMemoryTable.maxConcurrentReaders, hn, range_succ_eq_map]
  exact ⟨_, by simp, getReadTasks_cons hnames hfilter _ stageId _⟩

/-- A scan has read tasks, each with the columns of the table. -/
def CanBeScanned (table : InMemoryTable V) (columnNames : List String)
    (tasks : Except Abort (List (InMemoryReadTask V T))) : Prop :=
  ∃ ts, tasks = .ok ts ∧ ts ≠ [] ∧ ∀ t ∈ ts, ∀ candidates ⊆ t.rowGroups, ∀ isZeroCopyPossible,
    t.resultTypes candidates isZeroCopyPossible =
      if columnNames = [] then [.empty] else columnNames.map table.columnType

lemma length_of_mem_integers (values : List Int) :
    ∀ r ∈ (values.map fun v => [some v] : List (Row Int)), r.length = [DataType.int64].length := by
  simp

lemma integers_eq_nil (values : List Int) :
    [DataType.int64] = [] → (values.map fun v => [some v] : List (Row Int)) = [] := by
  simp

/-- An in-memory table with one column, after the given row groups were written. -/
def oneColumn (rowGroups : List (List Int)) (h : rowGroups.length < 2 ^ 31) :
    InMemoryTable Int where
  columnNames := ["a"]
  columnTypes := [.int64]
  rowGroups := rowGroups.map fun values =>
    ⟨[.int64], values.map fun v => [some v], length_of_mem_integers values, integers_eq_nil values⟩
  length_columnTypes := rfl
  types_rowGroup := by simp
  length_rowGroups := (length_map _).symm ▸ h

/-- The number of rows of the column that carries them when no column is read. -/
def phantomSize (rowGroups : List (Table V)) : Except Abort Int :=
  let totalRows : Int := rowGroups.foldl (fun total rg => (total + rg.numRows).bmod (2 ^ 32)) 0
  if totalRows < 0 then .error (.throws "Column size cannot be negative.") else .ok totalRows

/-- A scan without columns, with a `COUNT_ALL` of each read task and their sum in 64 bits. -/
def countAll (table : InMemoryTable V) (maxNumPartitions : Nat) : Except Abort Int := do
  let tasks ← table.scan maxNumPartitions [] [] none ([] : List Nat) 0 0
  let sizes ← tasks.mapM fun task => phantomSize task.rowGroups
  .ok (sizes.sum.bmod (2 ^ 64))

def numRows (rowGroups : List (Table V)) : Nat := (rowGroups.map Table.numRows).sum

lemma foldl_bmod (rowGroups : List (Table V)) (n : Nat) (total : Int) :
    rowGroups.foldl (fun total rg => (total + rg.numRows).bmod n) (total.bmod n) =
      (total + numRows rowGroups).bmod n := by
  induction rowGroups generalizing total with
  | nil => simp [numRows]
  | cons rg rgs ih =>
    rw [foldl_cons, Int.bmod_add_bmod, ih]
    simp [numRows, Int.add_assoc]

lemma phantomSize_eq (rowGroups : List (Table V)) : phantomSize rowGroups =
    if (numRows rowGroups : Int).bmod (2 ^ 32) < 0 then
      .error (.throws "Column size cannot be negative.")
    else .ok ((numRows rowGroups : Int).bmod (2 ^ 32)) := by
  have h := foldl_bmod rowGroups (2 ^ 32) 0
  rw [Int.zero_bmod, Int.zero_add] at h
  simp only [phantomSize, h]

variable {chunks : List (List (Table V))}

/-- No size is too large, and the sizes add up to the rows if each number of rows fits. -/
lemma mapM_phantomSize {sizes : List Int} (h : chunks.mapM phantomSize = .ok sizes) :
    0 ≤ sizes.sum ∧ sizes.sum ≤ numRows chunks.flatten ∧
      (sizes.sum = numRows chunks.flatten → ∀ chunk ∈ chunks, numRows chunk < 2 ^ 31) := by
  induction chunks generalizing sizes with
  | nil =>
    obtain rfl := Except.ok.inj h
    simp
  | cons chunk chunks ih =>
    rw [mapM_cons] at h
    obtain ⟨size, hsize, h⟩ := bind_eq_ok h
    obtain ⟨sizes', hsizes, h⟩ := bind_eq_ok h
    obtain rfl := Except.ok.inj h
    obtain ⟨hnonneg, hle, heq⟩ := ih hsizes
    rw [phantomSize_eq] at hsize
    have hflat : numRows (chunk :: chunks).flatten = numRows chunk + numRows chunks.flatten := by
      simp [numRows]
    split_ifs at hsize with hneg
    obtain rfl := Except.ok.inj hsize
    rw [Int.bmod_def] at hneg ⊢
    rw [hflat, sum_cons, forall_mem_cons]
    refine ⟨by omega, by omega, fun htotal => ⟨by omega, heq (by omega)⟩⟩

lemma mapM_phantomSize_of_lt (h : ∀ chunk ∈ chunks, numRows chunk < 2 ^ 31) :
    ∃ sizes, chunks.mapM phantomSize = .ok sizes ∧
      sizes.sum = numRows chunks.flatten := by
  induction chunks with
  | nil => exact ⟨[], rfl, rfl⟩
  | cons chunk chunks ih =>
    obtain ⟨hlt, h⟩ := forall_mem_cons.1 h
    obtain ⟨sizes, hsizes, hsum⟩ := ih h
    have hsize : (numRows chunk : Int).bmod (2 ^ 32) = numRows chunk :=
      Int.bmod_eq_of_le (by omega) (by omega)
    refine ⟨numRows chunk :: sizes, ?_, ?_⟩
    · rw [mapM_cons, phantomSize_eq, hsize, if_neg (by omega), hsizes]
      rfl
    · rw [sum_cons, hsum]
      simp [numRows]

/-- **`COUNT(*)`.** The count is the number of rows exactly if the table has row groups and no read
task has row groups with 2³¹ rows or more. -/
theorem countAll_eq_iff {maxNumPartitions : Nat} (hmax : 1 ≤ maxNumPartitions)
    (htotal : numRows table.rowGroups < 2 ^ 63) :
    countAll table maxNumPartitions = .ok (numRows table.rowGroups) ↔ table.rowGroups ≠ [] ∧
      let readers := min table.rowGroups.length maxNumPartitions
      let chunk := divideRoundUp table.rowGroups.length readers
      ∀ k < readers, numRows ((table.rowGroups.drop (k * chunk)).take chunk) < 2 ^ 31 := by
  by_cases hne : table.rowGroups = []
  · rw [countAll, scan_of_no_rowGroups hne (by simp)]
    exact iff_of_false nofun fun h => h.1 hne
  have hnone : InMemoryTable.transformPartialFilter (none : Option (Expr V)) = .ok none := rfl
  obtain ⟨params, hlen, hscan⟩ := exists_scan_eq hmax hne
    (forall_mem_nil _) hnone [] [] 0 0
  rw [← hlen]
  set chunk := divideRoundUp table.rowGroups.length params.length with hchunk
  set chunks := (deal chunk table.rowGroups params 0).map Prod.snd with hchunks
  have hflat : chunks.flatten = table.rowGroups := by
    have hpos : 0 < params.length := hlen ▸ lt_min (length_pos_of_ne_nil hne) hmax
    have hle := (lt_divideRoundUp hpos chunk).not.1 (Nat.lt_irrefl _)
    rw [hchunks, flatten_map_snd_deal, drop_zero, Nat.mul_comm, take_of_length_le (by omega)]
  have hcount : countAll table maxNumPartitions =
      chunks.mapM phantomSize >>= fun sizes => .ok (sizes.sum.bmod (2 ^ 64)) := by
    rw [countAll, hscan, ok_bind, mapM_map, mapM_map]
    rfl
  have hfits : (∀ chunk ∈ chunks, numRows chunk < 2 ^ 31) ↔ ∀ k < params.length,
      numRows ((table.rowGroups.drop (k * chunk)).take chunk) < 2 ^ 31 := by
    rw [hchunks, forall_mem_map,
      forall_mem_deal_iff (P := (numRows · < 2 ^ 31)) (by simp [numRows])]
    simp
  rw [hcount, and_iff_right hne]
  refine .trans ?_ hfits
  constructor
  · intro h
    obtain ⟨sizes, hsizes, h⟩ := bind_eq_ok h
    obtain ⟨hnonneg, hle, hlt⟩ := mapM_phantomSize hsizes
    have hbmod : sizes.sum.bmod (2 ^ 64) = sizes.sum := by
      rw [hflat] at hle
      exact Int.bmod_eq_of_le (by omega) (by omega)
    rw [hbmod] at h
    exact hlt (hflat ▸ Except.ok.inj h)
  · intro h
    obtain ⟨sizes, hsizes, hsum⟩ := mapM_phantomSize_of_lt h
    rw [hsizes, ok_bind, hsum, hflat, Int.bmod_eq_of_le (by omega) (by omega)]

theorem countAll_two_rowGroups : countAll (oneColumn [[1, 2], [3]] (by decide)) 1 = .ok 3 :=
  (countAll_eq_iff (by decide) (by decide)).2 (by decide)

lemma countAll_of_two {rg rg' : Table V} (h : table.rowGroups = [rg, rg']) : countAll table 1 =
    phantomSize table.rowGroups >>= fun size => .ok ([size].sum.bmod (2 ^ 64)) := by
  have hmin : min table.maxConcurrentReaders 1 = 1 := by
    simp [h]
  have hscan : table.scan 1 [] [] none ([] : List Nat) 0 0 =
      .ok [⟨0, 0, table.rowGroups, [], [], none, []⟩] := by
    rw [InMemoryTable.scan, hmin]
    refine (getReadTasks_cons (by simp) rfl _ 0 _).trans ?_
    rw [h]
    simp [deal, divideRoundUp]
  rw [countAll, hscan, ok_bind, mapM_cons, mapM_nil, bind_assoc]
  rfl

/-- One read task has 2³¹ + 1 rows. -/
theorem countAll_negative_size :
    let table := oneColumn [replicate (2 ^ 31 - 1) 0, [0, 0]] (by decide)
    numRows table.rowGroups = 2 ^ 31 + 1 ∧
      countAll table 1 = .error (.throws "Column size cannot be negative.") := by
  intro table
  have hrows : numRows table.rowGroups = 2 ^ 31 + 1 := by
    simp only [table, oneColumn, numRows, Table.numRows, map_cons, length_map, length_replicate]
    rfl
  rw [countAll_of_two rfl, phantomSize_eq, hrows]
  exact ⟨rfl, rfl⟩

end InMemory

end Gqe.Storage
