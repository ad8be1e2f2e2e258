import Gqe.Join.ShuffleCorrectness
import Gqe.TaskGraph.Visits

/-!
# Shuffles across processes

With several processes every rank has all tasks and executes those that the round-robin scheduler
gives it (`scheduler.cpp`). A merge task has the results of the partition tasks of other ranks
migrated (`task::prepare_dependent_tasks`, `rpc/task_migration.cpp`), but not their offsets.
-/

namespace Gqe.Join

open Fallible List
open TaskGraph (Builder Task)

variable {V : Type}

/-! ### Ranks -/

/-- `round_robin_scheduler::get_execution_ranks`, given the pipelines of a task. -/
def getExecutionRanks (numRanks : Nat) (pipelineIds : List Nat) : List Nat :=
  pipelineIds.map (· % numRanks)

/-- A `partition_task` as a rank has it. The result is set when the task is executed or migrated,
the offsets only when it is executed. -/
structure LocalPartitionTask (V : Type) where
  taskId : Nat
  result : Option (Table V)
  partitionOffsets : List Nat

/-- The stage of the partition tasks on a rank. The `i`-th task is in pipeline `i`. -/
def executePartitionStage (H : HashPartitioning V) (partitionCols : List (Expr V))
    (numPartitions numRanks firstTaskId : Nat) (inputs : List (Table V)) (rank : Nat) :
    Except Failure (List (LocalPartitionTask V)) :=
  inputs.zipIdx.mapM fun input =>
    if rank ∈ getExecutionRanks numRanks [input.2] then do
      let task ← partitionTask H partitionCols numPartitions input.1
      .ok ⟨firstTaskId + input.2, some task.result, task.partitionOffsets⟩
    else .ok ⟨firstTaskId + input.2, none, []⟩

/-- `migrate_result` for the `i`-th partition task, given the tasks of all ranks. -/
def migrateResult (cluster : List (List (LocalPartitionTask V))) (i taskId : Nat) :
    (candidateRanks : List Nat) → Except Failure (Table V)
  | [] => .error (.throws
      ("Could not find candidate rank for task " ++ toString taskId ++ " migration"))
  | rank :: _ =>
    match (cluster.getD rank [])[i]?.bind (·.result) with
    | some t => .ok t
    | none => .error (.throws ("Error migrating result for task " ++ toString taskId ++
        " from rank " ++ toString rank ++
        ": Dependent task from previous stage is not executed."))

/-- `prepare_dependent_tasks` of a merge task. The partition tasks are of an earlier stage, so the
result of a task that the rank has not executed is migrated. -/
def prepareDependencies (numRanks : Nat) (cluster : List (List (LocalPartitionTask V)))
    (rank : Nat) : Except Failure (List (PartitionResult V)) :=
  (cluster.getD rank []).zipIdx.mapM fun task =>
    match task.1.result with
    | some t => .ok ⟨t, task.1.partitionOffsets⟩
    | none => do
      let t ← migrateResult cluster task.2 task.1.taskId (getExecutionRanks numRanks [task.2])
      .ok ⟨t, task.1.partitionOffsets⟩

/-- `partition_merge_task::execute` on a rank. -/
def executePartitionMerge (numRanks : Nat) (cluster : List (List (LocalPartitionTask V)))
    (partitionIdx rank : Nat) : Except Failure (Table V) := do
  let dependencies ← prepareDependencies numRanks cluster rank
  partitionMergeTask dependencies partitionIdx

/-- The merged partitions of an input, each on all ranks that execute its merge task. The pipelines
are those that the merge tasks belong to. -/
def runShuffle (H : HashPartitioning V) (partitionCols : List (Expr V))
    (numPartitions numRanks firstTaskId : Nat) (pipelineIds : Nat → List Nat)
    (input : Partitions V) : Except Failure (List (List (Table V))) := do
  let cluster ← (range numRanks).mapM
    (executePartitionStage H partitionCols numPartitions numRanks firstTaskId input.parts)
  (range numPartitions).mapM fun partitionIdx =>
    (getExecutionRanks numRanks (pipelineIds partitionIdx)).mapM
      (executePartitionMerge numRanks cluster partitionIdx)

/-- Every merge task finds its offsets, and the merged partitions together have every row of the
input once, whichever rank they are taken from. -/
def Delivers (input : Partitions V) (numPartitions : Nat)
    (merged : Except Failure (List (List (Table V)))) : Prop :=
  ∃ tables, merged = .ok tables ∧ ∀ choice : Nat → Table V,
    (∀ k < numPartitions, choice k ∈ tables.getD k []) →
      ((range numPartitions).flatMap fun k => (choice k).rows).Perm input.whole.rows

/-! ### What the ranks have -/

section Ranks

variable {H : HashPartitioning V} {partitionCols : List (Expr V)} {n numRanks firstTaskId : Nat}
  {tasks : List (PartitionResult V)}

/-- The partition tasks on a rank after their stage, given what their execution leaves behind. -/
@[simp] def localTasks (numRanks firstTaskId : Nat) (tasks : List (PartitionResult V))
    (rank : Nat) : List (LocalPartitionTask V) :=
  tasks.mapIdx fun i task =>
    if i % numRanks = rank then ⟨firstTaskId + i, some task.result, task.partitionOffsets⟩
    else ⟨firstTaskId + i, none, []⟩

/-- The partition tasks as a merge task on a rank sees them. -/
@[simp] def dependenciesOn (numRanks : Nat) (tasks : List (PartitionResult V)) (rank : Nat) :
    List (PartitionResult V) :=
  tasks.mapIdx fun i task =>
    ⟨task.result, if i % numRanks = rank then task.partitionOffsets else []⟩

lemma executeStage_eq_ok {inputs : List (Table V)}
    (h : inputs.mapM (partitionTask H partitionCols n) = .ok tasks) (rank : Nat) :
    executePartitionStage H partitionCols n numRanks firstTaskId inputs rank =
      .ok (localTasks numRanks firstTaskId tasks rank) := by
  have htasks := mapM_eq_ok_iff.1 h
  refine mapM_eq_ok_iff.2 (forall₂_iff_get.2 ⟨?_, ?_⟩)
  · simp [htasks.length_eq]
  · intro i hi hi'
    have htask : partitionTask H partitionCols n (inputs.get ⟨i, _⟩) = .ok (tasks.get ⟨i, _⟩) :=
      htasks.get (by simpa using hi) (by simpa using hi')
    simp only [get_eq_getElem] at htask
    simp only [get_eq_getElem, getElem_zipIdx, Nat.zero_add, localTasks,
      getElem_mapIdx, getExecutionRanks, map_singleton, mem_singleton, htask]
    split_ifs with hrank hne hne
    · rfl
    · exact absurd hrank.symm hne
    · exact absurd hne.symm hrank
    · rfl

/-- A merge task has all results, but the offsets of the tasks that its rank has executed only. -/
lemma prepareDependencies_eq_ok {rank : Nat} (hrank : rank < numRanks) :
    prepareDependencies numRanks ((range numRanks).map (localTasks numRanks firstTaskId tasks))
      rank = .ok (dependenciesOn numRanks tasks rank) := by
  have hranks : 0 < numRanks := by omega
  have hlocal : ((range numRanks).map (localTasks numRanks firstTaskId tasks)).getD rank [] =
      localTasks numRanks firstTaskId tasks rank := by
    simp [hrank]
  unfold prepareDependencies
  rw [hlocal]
  refine mapM_eq_ok_iff.2 (forall₂_iff_get.2 ⟨?_, ?_⟩)
  · simp
  · intro i hi hi'
    have hi : i < tasks.length := by simpa using hi
    simp only [get_eq_getElem, getElem_zipIdx, localTasks, dependenciesOn, getElem_mapIdx]
    split_ifs
    · rfl
    · simp [getExecutionRanks, migrateResult, Nat.mod_lt i hranks, hi]

lemma offsets_ne_nil_of_merge {dependencies : List (PartitionResult V)} {k : Nat}
    {t : Table V} (h : partitionMergeTask dependencies k = .ok t) :
    ∀ dependency ∈ dependencies, dependency.partitionOffsets ≠ [] := by
  intro dependency hdependency hnil
  obtain ⟨tables, htabs, -⟩ := bind_eq_ok h
  obtain ⟨slice, hslice⟩ := forall_of_mapM_eq_ok htabs dependency hdependency
  obtain ⟨startIdx, hstart, -⟩ := bind_eq_ok hslice
  rw [hnil] at hstart
  cases hstart

lemma dependenciesOn_eq_self {rank : Nat} (h : ∀ i < tasks.length, i % numRanks = rank) :
    dependenciesOn numRanks tasks rank = tasks := by
  apply ext_getElem
  · simp
  · intro i _ hi
    simp [h i hi]

end Ranks

/-! ### Shuffles -/

section Shuffle

variable {H : HashPartitioning V} {n numRanks firstTaskId : Nat} {pipelineIds : Nat → List Nat}
  {input : Partitions V} {columns : List Nat}

lemma runShuffle_eq (hranks : 0 < numRanks) {partitionCols : List (Expr V)}
    {tasks : List (PartitionResult V)}
    (htasks : input.parts.mapM (partitionTask H partitionCols n) = .ok tasks) :
    runShuffle H partitionCols n numRanks firstTaskId pipelineIds input =
      (range n).mapM fun k => (getExecutionRanks numRanks (pipelineIds k)).mapM fun rank =>
        partitionMergeTask (dependenciesOn numRanks tasks rank) k := by
  have hcluster : ((range numRanks).mapM
      (executePartitionStage H partitionCols n numRanks firstTaskId input.parts)) =
      .ok ((range numRanks).map (localTasks numRanks firstTaskId tasks)) :=
    mapM_eq_ok fun rank _ => executeStage_eq_ok htasks rank
  simp only [runShuffle, hcluster]
  refine mapM_congr fun k _ => mapM_congr fun rank hrank => ?_
  obtain ⟨id, -, rfl⟩ := mem_map.1 hrank
  rw [executePartitionMerge, prepareDependencies_eq_ok (Nat.mod_lt id hranks)]
  rfl

/-- A shuffle delivers its input if and only if every rank that merges has executed all partition
tasks itself. -/
theorem runShuffle_delivers_iff (hn : 0 < n) (hranks : 0 < numRanks) (hcolumns : columns ≠ [])
    (hlt : ∀ c ∈ columns, c < input.types.length) :
    Delivers input n (runShuffle H (columns.map .columnReference) n numRanks firstTaskId pipelineIds
      input) ↔
    ∀ k < n, ∀ id ∈ pipelineIds k, ∀ i < input.parts.length, i % numRanks = id % numRanks := by
  obtain ⟨tasks, htasks, hfor⟩ := mapM_partition_eq_ok hn hcolumns hlt
  rw [runShuffle_eq hranks htasks, hfor.length_eq]
  constructor
  · rintro ⟨tables, hrun, -⟩ k hk id hid i hi
    obtain ⟨merged, hmerged⟩ := forall_of_mapM_eq_ok hrun k (mem_range.2 hk)
    have hrank : id % numRanks ∈ getExecutionRanks numRanks (pipelineIds k) :=
      mem_map_of_mem hid
    obtain ⟨t, ht⟩ := forall_of_mapM_eq_ok hmerged _ hrank
    have hoffsets := offsets_ne_nil_of_merge ht _
      (mem_mapIdx.2 ⟨i, hi, rfl⟩)
    by_contra hne
    exact hoffsets (if_neg hne)
  · intro hlocal
    have hmerge : ∀ k ∈ range n, ∃ tables,
        (getExecutionRanks numRanks (pipelineIds k)).mapM (fun rank =>
          partitionMergeTask (dependenciesOn numRanks tasks rank) k) = .ok tables ∧
        ∀ t ∈ tables, t.rows.Perm
          (input.whole.rows.filter (H.rowPartition n input.types columns · = k)) := by
      intro k hk
      have hk := mem_range.1 hk
      have hrank : ∀ rank ∈ getExecutionRanks numRanks (pipelineIds k), ∃ t,
          partitionMergeTask (dependenciesOn numRanks tasks rank) k = .ok t ∧ t.rows.Perm
            (input.whole.rows.filter (H.rowPartition n input.types columns · = k)) := by
        intro rank hrank
        obtain ⟨id, hid, rfl⟩ := mem_map.1 hrank
        rw [dependenciesOn_eq_self (hlocal k hk id hid)]
        obtain ⟨t, ht, -, hperm⟩ := mergeTask_eq_ok hfor hk
        exact ⟨t, ht, hperm⟩
      obtain ⟨tables, htables, hperms⟩ := exists_mapM_eq_ok hrank
      refine ⟨tables, htables, ?_⟩
      intro t ht
      obtain ⟨j, hj, rfl⟩ := getElem_of_mem ht
      exact hperms.get (hperms.length_eq ▸ hj) hj
    obtain ⟨tables, hrun, hperms⟩ := exists_mapM_eq_ok hmerge
    refine ⟨tables, hrun, fun choice hchoice => ?_⟩
    refine .trans (List.Perm.flatMap_left _ fun k hk => ?_)
      (Slices.flatMap_filter_perm (H.rowPartition n input.types columns)
        fun r _ => H.partitionOf_lt _ _ hn)
    have hk := mem_range.1 hk
    have hlength : k < tables.length := by
      rw [← hperms.length_eq, length_range]
      exact hk
    have htables := hperms.get (by simpa using hk) hlength
    simp only [get_eq_getElem, getElem_range] at htables
    refine htables _ ?_
    simpa [hlength] using hchoice k hk

end Shuffle

theorem runShuffle_delivers_one_partition : Delivers integerInput 1
      (runShuffle .integers [.columnReference 0] 1 2 0 (fun k => [k]) integerInput) := by
  have hcolumns : ∀ c ∈ [0], c < integerInput.types.length := by simp
  refine (runShuffle_delivers_iff Nat.one_pos Nat.two_pos (cons_ne_nil 0 []) hcolumns).2 ?_
  simp

/-- The second merge task is executed on the second rank, which has no offsets. -/
theorem not_runShuffle_delivers_two_partitions :
    runShuffle .integers [.columnReference 0] 2 2 0 (fun k => [k]) integerInput =
      .error .outOfBounds ∧ ¬ Delivers integerInput 2
      (runShuffle .integers [.columnReference 0] 2 2 0 (fun k => [k]) integerInput) := by
  have herror : runShuffle .integers [.columnReference 0] 2 2 0 (fun k => [k]) integerInput =
      .error .outOfBounds := rfl
  refine ⟨herror, ?_⟩
  rintro ⟨tables, hrun, -⟩
  cases hrun

end Gqe.Join
