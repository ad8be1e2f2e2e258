import Gqe.Join.Correctness
import Gqe.Lib.Slices

/-!
# Shuffle joins

A shuffle (`executor/partition.cpp`, `executor/partition_merge.cpp`) splits every part of an input
by the hash of its shuffle columns and puts the parts of one hash partition together again. A
shuffle join (`visit(shuffle_join_relation)`) joins the inputs hash partition by hash partition.
-/

namespace Gqe.Join

open Slices List

variable {V : Type}

/-! ### Partition tasks -/

/-- A table whose rows are in parts by a number between `0` and `n - 1`, with the starts of the
parts. -/
structure IsPartitioned (partition : Row V → Nat) (n : Nat) (input : Table V)
    (output : Table V × List Nat) : Prop where
  types : output.1.types = input.types
  parts : ∃ parts : List (List (Row V)), parts.length = n ∧ output.1.rows = parts.flatten ∧
    output.2 = starts parts ∧ ∀ k (hk : k < parts.length),
      parts[k].Perm (input.rows.filter (partition · = k))

/-- `cudf::hash_partition`, with the partition of a row by the types and values of its keys. -/
structure HashPartitioning (V : Type) where
  partitionOf : (numPartitions : Nat) → List DataType → Row V → Nat
  hashPartition : Table V → (columns : List Nat) → (numPartitions : Nat) → Table V × List Nat
  partitionOf_lt {n : Nat} (types : List DataType) (key : Row V) : 0 < n →
    partitionOf n types key < n
  isPartitioned {n : Nat} (t : Table V) (columns : List Nat) : 0 < n →
    IsPartitioned (fun r => partitionOf n (columns.map t.typeOf) (r.select columns)) n t
      (hashPartition t columns n)

def HashPartitioning.rowPartition (H : HashPartitioning V) (n : Nat) (types : List DataType)
    (columns : List Nat) (r : Row V) : Nat :=
  H.partitionOf n (columns.map (types.getD · .empty)) (r.select columns)

/-- The rows of each partition in the order of the input. -/
def HashPartitioning.ofHash (hash : List DataType → Row V → Nat) : HashPartitioning V where
  partitionOf n types key := hash types key % n
  hashPartition t columns n :=
    let parts := (range n).map fun k =>
      t.rows.filter fun r => hash (columns.map t.typeOf) (r.select columns) % n = k
    ({ t with
        rows := parts.flatten
        length_row := by
          intro r hr
          obtain ⟨part, hpart, hr⟩ := mem_flatten.1 hr
          obtain ⟨k, -, rfl⟩ := mem_map.1 hpart
          exact t.length_row r (mem_of_mem_filter hr)
        rows_of_no_columns := by
          intro htypes
          simp [parts, t.rows_of_no_columns htypes] },
      starts parts)
  partitionOf_lt _ _ hn := Nat.mod_lt _ hn
  isPartitioned t columns hn := by
    refine ⟨rfl, _, length_map .. |>.trans length_range, rfl, rfl, ?_⟩
    intro k hk
    simp

/-- A `partition_task` that has been executed. -/
structure PartitionResult (V : Type) where
  result : Table V
  partitionOffsets : List Nat

def columnToHash : Expr V → Except Failure Nat
  | .columnReference columnIdx => .ok columnIdx
  | _ => .error (.throws "Currently, partition column must be a column reference")

/-- `partition_task::execute`. -/
def partitionTask (H : HashPartitioning V) (partitionCols : List (Expr V)) (numPartitions : Nat)
    (input : Table V) : Except Failure (PartitionResult V) :=
  match partitionCols with
  | [] => .error (.throws "Partition columns cannot be empty")
  | partitionCols => do
    let columnsToHash ← partitionCols.mapM columnToHash
    if ∃ c ∈ columnsToHash, input.numColumns ≤ c then
      .error (.throws "vector::_M_range_check")
    else
      let (result, partitionOffsets) := H.hashPartition input columnsToHash numPartitions
      -- The end of the last partition is appended.
      .ok ⟨result, partitionOffsets ++ [input.numRows]⟩

/-! ### Partition merge tasks -/

/-- `partition_offset`, which reads its vector without a check. -/
def partitionOffset (partitionOffsets : List Nat) (partitionIdx : Nat) : Except Failure Nat :=
  match partitionOffsets[partitionIdx]? with
  | some offset => .ok offset
  | none => .error .outOfBounds

/-- `cudf::slice` with one range. -/
def sliceTable (t : Table V) (startIdx endIdx : Nat) : Except Failure (Table V) :=
  if endIdx < startIdx then
    .error (.throws "End index cannot be smaller than the starting index.")
  else if t.numRows < endIdx then .error (.throws "Slice range out of bounds.")
  else .ok { t with
    rows := slice t.rows startIdx endIdx
    length_row := fun r hr => t.length_row r (mem_of_mem_take (mem_of_mem_drop hr))
    rows_of_no_columns := fun htypes => by simp [slice, t.rows_of_no_columns htypes] }

/-- `cudf::concatenate`. -/
def concatenateTables : List (Table V) → Except Failure (Table V)
  | [] => .ok ⟨[], [], by simp, by simp⟩
  | t :: tables =>
    if h : ∀ s ∈ t :: tables, s.types = t.types then
      .ok (Partitions.whole ⟨t.types, t :: tables, by simp, h⟩)
    else if ∀ s ∈ tables, s.numColumns = t.numColumns then
      .error (.throws "Type mismatch in columns to concatenate.")
    else .error (.throws "Mismatch in table columns to concatenate.")

/-- The turn of the loop of `partition_merge_task::execute` for a dependency. -/
def partitionSlice (partitionIdx : Nat) (dependency : PartitionResult V) :
    Except Failure (Table V) := do
  let startIdx ← partitionOffset dependency.partitionOffsets partitionIdx
  let endIdx ← partitionOffset dependency.partitionOffsets (partitionIdx + 1)
  sliceTable dependency.result startIdx endIdx

/-- `partition_merge_task::execute`. -/
def partitionMergeTask (dependencies : List (PartitionResult V)) (partitionIdx : Nat) :
    Except Failure (Table V) := do
  let tablesToConcat ← dependencies.mapM (partitionSlice partitionIdx)
  concatenateTables tablesToConcat

/-! ### Shuffle joins -/

/-- `shuffle_join_relation` over two `shuffle_relation`s, without unique keys. -/
structure ShuffleJoin (V : Type) where
  joinType : JoinType
  condition : Expr V
  projectionIndices : List Nat
  perfectHashing : Bool
  leftShuffleCols : List (Expr V)
  rightShuffleCols : List (Expr V)

namespace ShuffleJoin

variable (relation : ShuffleJoin V)

def joinTask : JoinTask V where
  joinType := relation.joinType
  condition := relation.condition
  projectionIndices := relation.projectionIndices
  hashMapCache := none
  materializeOutput := true
  perfectHashing := relation.perfectHashing

variable [LinearOrder V] (J : CudfJoins V) (H : HashPartitioning V)

/-- The task that joins a hash partition, with the two tasks it depends on. -/
def joinPartition (leftTasks rightTasks : List (PartitionResult V)) (partitionIdx : Nat) :
    Except Failure (TaskResult V) := do
  let left ← partitionMergeTask leftTasks partitionIdx
  let right ← partitionMergeTask rightTasks partitionIdx
  let (result, _) ← relation.joinTask.execute J none left right
  .ok result

/-- The results of the tasks that `visit(shuffle_join_relation)` generates, in one process. -/
def run (numShufflePartitions : Nat) (left right : Partitions V) :
    Except Failure (List (TaskResult V)) :=
  if relation.joinType = .full ∨ relation.joinType = .single then
    .error (.throws "shuffle join does not support full join or single join")
  else do
    let leftTasks ← left.parts.mapM
      (partitionTask H relation.leftShuffleCols numShufflePartitions)
    let rightTasks ← right.parts.mapM
      (partitionTask H relation.rightShuffleCols numShufflePartitions)
    (range numShufflePartitions).mapM (relation.joinPartition J leftTasks rightTasks)

end ShuffleJoin

end Gqe.Join
