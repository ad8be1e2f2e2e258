import Gqe.Lib.NamedObjects
import Gqe.TaskGraph.Visits

/-!
# Row groups in shared memory

The write tasks of a shared-memory table construct one object for each column, and one for the zone
map, in a segment that all tables and all queries share (`storage/in_memory.cpp`). The names of the
objects are made of the stage and task ids of the query and of the column names. They live as long
as the row group.
-/

namespace Gqe.Storage

open NamedObjects TaskGraph List

/-- `in_memory_write_task`, as far as the names in the segment go; the first of the column names is
read without a check. -/
structure SharedWriteTask where
  stageId : Nat
  taskId : Nat
  columnNames : List String
  zoneMapPartitionSize : Int
  nonempty : columnNames ≠ []
  deriving DecidableEq

namespace SharedWriteTask

variable (w : SharedWriteTask)

def sharedColumnName (columnIdx : Nat) (columnName : String) : String :=
  "shared_column_" ++ (toString w.stageId ++ "_" ++ (toString w.taskId ++ "_" ++
    (toString columnIdx ++ "_" ++ columnName)))

def firstColumnName : String := w.columnNames.head w.nonempty

def sharedTableName : String :=
  "shared_zone_map_table_" ++ (w.firstColumnName ++ toString w.stageId ++ "_" ++ toString w.taskId)

/-- The names that `execute_shared_memory` constructs, in their order. -/
def names : List String :=
  w.columnNames.mapIdx w.sharedColumnName ++
    if w.zoneMapPartitionSize ≤ 0 then [] else [w.sharedTableName]

/-- Two write tasks have the same task id and, in the same stage, a column of one name at one
position, or zone maps and first columns whose names run into the stage ids the same way. -/
def Clash (r w : SharedWriteTask) : Prop :=
  r.taskId = w.taskId ∧ ((r.stageId = w.stageId ∧ ∃ (columnIdx : Nat) (columnName : String),
        r.columnNames[columnIdx]? = some columnName ∧ w.columnNames[columnIdx]? = some columnName) ∨
      (0 < r.zoneMapPartitionSize ∧ 0 < w.zoneMapPartitionSize ∧
        r.firstColumnName ++ toString r.stageId = w.firstColumnName ++ toString w.stageId))

variable {w} {r : SharedWriteTask}

lemma append_left_inj {s t u : String} : s ++ t = s ++ u ↔ t = u := by
  simp

lemma sharedColumnName_inj {i j : Nat} {a b : String} :
    r.sharedColumnName i a = w.sharedColumnName j b ↔
      r.stageId = w.stageId ∧ r.taskId = w.taskId ∧ i = j ∧ a = b := by
  rw [sharedColumnName, sharedColumnName, append_left_inj, toString_append_inj,
    toString_append_inj, toString_append_inj]

lemma sharedTableName_eq : w.sharedTableName = "shared_zone_map_table_" ++
      (w.firstColumnName ++ toString w.stageId ++ "_" ++ toString w.taskId) := rfl

lemma sharedTableName_inj : r.sharedTableName = w.sharedTableName ↔
      r.firstColumnName ++ toString r.stageId = w.firstColumnName ++ toString w.stageId ∧
        r.taskId = w.taskId := by
  rw [sharedTableName_eq, sharedTableName_eq, append_left_inj, append_toString_inj]

/-- The eighth character tells the columns from the zone maps. -/
lemma column_ne_zone_map_table (s t : String) :
    "shared_column_" ++ s ≠ "shared_zone_map_table_" ++ t := by
  intro h
  have hcol : "shared_column_".toList = "shared_".toList ++ 'c' :: "olumn_".toList := by
    decide
  have htab : "shared_zone_map_table_".toList =
      "shared_".toList ++ 'z' :: "one_map_table_".toList := by
    decide
  have hlist := congrArg String.toList h
  rw [String.toList_append, String.toList_append, hcol, htab, append_assoc,
    append_assoc, append_cancel_left_eq] at hlist
  exact absurd (List.cons.inj hlist).1 (by decide)

lemma columnName_ne_tableName (i : Nat) (a : String) :
    r.sharedColumnName i a ≠ w.sharedTableName :=
  column_ne_zone_map_table _ _

lemma mem_names {name : String} : name ∈ w.names ↔
      (∃ i a, w.columnNames[i]? = some a ∧ w.sharedColumnName i a = name) ∨
        (0 < w.zoneMapPartitionSize ∧ w.sharedTableName = name) := by
  rw [names, mem_append, mem_mapIdx]
  refine or_congr ?_ ?_
  · constructor
    · rintro ⟨i, hi, rfl⟩
      exact ⟨i, _, List.getElem?_eq_getElem hi, rfl⟩
    · rintro ⟨i, a, hi, rfl⟩
      obtain ⟨hlt, rfl⟩ := List.getElem?_eq_some_iff.1 hi
      exact ⟨i, hlt, rfl⟩
  · split_ifs with hsz
    · simp [Int.not_lt.2 hsz]
    · simp [Int.not_le.1 hsz, eq_comm]

lemma nodup_names (w : SharedWriteTask) : w.names.Nodup := by
  have hcols : (w.columnNames.mapIdx w.sharedColumnName).Nodup := by
    rw [nodup_iff_injective_get]
    intro i j hij
    simp only [get_eq_getElem, getElem_mapIdx, sharedColumnName_inj] at hij
    exact Fin.ext hij.2.2.1
  rw [names]
  split_ifs
  · simpa using hcols
  · refine hcols.append (nodup_singleton _) ?_
    intro name hname htab
    obtain ⟨i, hi, rfl⟩ := mem_mapIdx.1 hname
    exact columnName_ne_tableName _ _ (mem_singleton.1 htab)

/-- Two row groups can be in the segment together unless their write tasks clash. -/
lemma disjoint_names_iff : r.names.Disjoint w.names ↔ ¬ r.Clash w := by
  constructor
  · rintro h ⟨htask, ⟨hstage, i, a, hr, hw⟩ | ⟨hr, hw, hname⟩⟩
    · refine h (mem_names.2 (.inl ⟨i, a, hr, rfl⟩)) (mem_names.2 (.inl ⟨i, a, hw, ?_⟩))
      exact sharedColumnName_inj.2 ⟨hstage.symm, htask.symm, rfl, rfl⟩
    · refine h (mem_names.2 (.inr ⟨hr, rfl⟩)) (mem_names.2 (.inr ⟨hw, ?_⟩))
      exact sharedTableName_inj.2 ⟨hname.symm, htask.symm⟩
  · intro h name hr hw
    rcases mem_names.1 hr with ⟨i, a, hi, rfl⟩ | ⟨hsz, rfl⟩
    · rcases mem_names.1 hw with ⟨j, b, hj, heq⟩ | ⟨-, heq⟩
      · obtain ⟨hstage, htask, rfl, rfl⟩ := sharedColumnName_inj.1 heq
        exact h ⟨htask.symm, .inl ⟨hstage.symm, j, b, hi, hj⟩⟩
      · exact columnName_ne_tableName _ _ heq.symm
    · rcases mem_names.1 hw with ⟨j, b, -, heq⟩ | ⟨hw, heq⟩
      · exact columnName_ne_tableName _ _ heq
      · obtain ⟨hname, htask⟩ := sharedTableName_inj.1 heq
        exact h ⟨htask.symm, .inr ⟨hsz, hw, hname.symm⟩⟩

end SharedWriteTask

open SharedWriteTask

/-- The names in the segment are those of the row groups alive, each in use once, and every write
task on the way has constructed its own. -/
def NamesDistinct (events : List (Event SharedWriteTask)) : Prop :=
  ∃ s, Segment.run names {} events = .ok s ∧
    s.names.Perm ((alive events).flatMap names) ∧ s.names.Nodup

lemma namesDistinct_iff_separate (events : List (Event SharedWriteTask)) :
    NamesDistinct events ↔ Separate names events := by
  rw [← Segment.exists_run_iff nodup_names events]
  constructor
  · rintro ⟨s, hs, -⟩
    exact ⟨s, hs⟩
  · rintro ⟨s, hs⟩
    have hsound := Segment.run_sound hs
    exact ⟨s, hs, hsound.owners ▸ hsound.perm, hsound.nodup⟩

/-- Over every sequence of writes and of row groups going away, the names never collide if and only
if no write task clashes with that of a row group alive. -/
theorem namesDistinct_iff_not_clash (events : List (Event SharedWriteTask)) : NamesDistinct events ↔
      ∀ before w, before ++ [Event.create w] <+: events → ∀ r ∈ alive before, ¬ r.Clash w := by
  simp [namesDistinct_iff_separate, Separate, disjoint_names_iff]

/-! ### Queries -/

/-- The write tasks among the tasks of a query, run one after another. -/
def writeEvents (tasks : List Task) (columnNames : List String) (zoneMapPartitionSize : Int)
    (nonempty : columnNames ≠ []) : List (Event SharedWriteTask) :=
  ((tasks.filter (·.kind = .write)).map fun task =>
    ⟨task.stageId, task.taskId, columnNames, zoneMapPartitionSize, nonempty⟩).map .create

/-- A context in which a table is read in one partition and written by any number of tasks. -/
def oneFile : Context where
  readableView _ := some ⟨1, 1, by decide, le_rfl⟩
  writeableView _ := some ⟨2 ^ 31 - 1, .ok⟩
  numShufflePartitions := 1
  joinUseMarkJoin := false
  numRanks := 1
  ordinal _ := 0
  numShufflePartitions_pos := by decide

def copyPlan : PhysicalRelation := .unary 1 (.write "t") (.read 0 "__pq_t_0")

/-- The second of two COPY statements into one table finds the names of the first in use. -/
theorem not_namesDistinct_copy_copy : ∃ graph, build oneFile copyPlan = .ok graph ∧
      Segment.run names {} (writeEvents graph.flatten ["a"] 0 (by decide) ++
        writeEvents graph.flatten ["a"] 0 (by decide)) = .error "shared_column_0_1_0_a" ∧
      ¬ NamesDistinct (writeEvents graph.flatten ["a"] 0 (by decide) ++
        writeEvents graph.flatten ["a"] 0 (by decide)) := by
  have hrun : Segment.run names {} (writeEvents [.mk 1 0 .write [.mk 0 0 .read [] []] []]
      ["a"] 0 (by decide) ++ writeEvents [.mk 1 0 .write [.mk 0 0 .read [] []] []]
      ["a"] 0 (by decide)) = .error "shared_column_0_1_0_a" := by
    rfl
  refine ⟨[[.mk 1 0 .write [.mk 0 0 .read [] []] []]], rfl, hrun, ?_⟩
  rintro ⟨s, hs, -⟩
  exact nomatch hrun.symm.trans hs

end Gqe.Storage
