import Gqe.Lib.KeyedSet
import Gqe.Lib.Scatter
import Gqe.ZoneMap.Basic

/-!
# Hash group-by

`executor/groupby/hash_groupby.cuh`. Each thread block collects the keys of its rows in a set in
shared memory. As long as there are few of them, the rows of the block are aggregated in shared
memory and the results are added to a sparse table in global memory, which has a row for each row of
the input; the rows of a block that finds too many keys are added to that table one by one. Keys
that are equal meet in one row of the table, the row that a set in global memory holds for the key.
-/

namespace Gqe.HashGroupBy

open ZoneMap (divideRoundUp)
open Scatter (Accumulator scatter)

/-! ### The launch -/

def blockSize : Nat := 128

def cardinalityThreshold : Nat := 128

def minShmemAggLocations : Nat := 32

/-- A launch of the kernels on rows with keys. The active mask has a byte for each row, which is all
that the kernels read of it, and may be NULL in some; without a mask, all bytes are TRUE. There is a
column for each aggregate. The grid that fits the device and the shared memory of a block are given
by the device. Rows are natural numbers, where the kernels have 32-bit integers; these do not
overflow as long as the rows, rounded up, leave room for one more turn (`blockStarts_eq`). -/
structure Launch (κ : Type*) where
  numInputRows : Nat
  key : Nat → κ
  maskByte : Nat → Bool
  maskNull : Nat → Bool
  numColumns : Nat
  detectedGridSize : Nat
  detectedGridSize_pos : 0 < detectedGridSize
  shmemSize : Nat

/-- The orders in which concurrent threads get to their atomic operations. -/
structure Schedule where
  /-- Insertions into the shared set of a block in a turn of its loop. -/
  arrivals : (block loop : Nat) → List Nat → List Nat
  /-- Increments of the cardinality by the rows that were inserted. -/
  numbering : (block loop : Nat) → List Nat → List Nat
  /-- Insertions of the keys of all blocks into the global set. -/
  globalInserts : List (Nat × Nat) → List (Nat × Nat)
  /-- Updates of the aggregates of a column in the shared memory of a block. -/
  preAggregates : (block col : Nat) → List Nat → List Nat
  /-- Updates of a column of the sparse table with the aggregates of all blocks. -/
  finalAggregates : (col : Nat) → List (Nat × Nat) → List (Nat × Nat)
  /-- Insertions of single rows into the global set. -/
  directInserts : List Nat → List Nat
  /-- Updates of a column of the sparse table with single rows. -/
  directAggregates : (col : Nat) → List Nat → List Nat
  /-- The order in which the global set returns its elements. -/
  retrieval : List Nat → List Nat
  arrivals_perm : ∀ block loop rows, (arrivals block loop rows).Perm rows
  numbering_perm : ∀ block loop rows, (numbering block loop rows).Perm rows
  globalInserts_perm : ∀ slots, (globalInserts slots).Perm slots
  preAggregates_perm : ∀ block col rows, (preAggregates block col rows).Perm rows
  finalAggregates_perm : ∀ col locations, (finalAggregates col locations).Perm locations
  directInserts_perm : ∀ rows, (directInserts rows).Perm rows
  directAggregates_perm : ∀ col rows, (directAggregates col rows).Perm rows
  retrieval_perm : ∀ rows, (retrieval rows).Perm rows

/-- Every thread gets to its operations in the order of the rows. -/
def Schedule.inOrder : Schedule where
  arrivals _ _ := id
  numbering _ _ := id
  globalInserts := id
  preAggregates _ _ := id
  finalAggregates _ := id
  directInserts := id
  directAggregates _ := id
  retrieval := id
  arrivals_perm _ _ := .refl
  numbering_perm _ _ := .refl
  globalInserts_perm := .refl
  preAggregates_perm _ _ := .refl
  finalAggregates_perm _ := .refl
  directInserts_perm := .refl
  directAggregates_perm _ := .refl
  retrieval_perm := .refl

variable {κ : Type*} [DecidableEq κ] {A : Type*}

namespace Launch

variable (L : Launch κ) (σ : Schedule)

/-- `grid_size`: no more blocks than it takes to have a thread for each row. -/
def gridSize : Nat := min L.detectedGridSize (divideRoundUp L.numInputRows blockSize)

/-- The rows all blocks take in one turn of their loops. -/
def stride : Nat := blockSize * L.gridSize

def numLoops : Nat := divideRoundUp L.numInputRows L.stride

/-- The rows of a block in one turn of its loop, one for each thread as long as there are rows. -/
def loopRows (block loop : Nat) : List Nat :=
  ((List.range blockSize).map fun thread => loop * L.stride + blockSize * block + thread).filter
    (· < L.numInputRows)

def blockRows (block : Nat) : List Nat := (List.range L.numLoops).flatMap (L.loopRows block)

/-! ### Mapping rows to keys -/

/-- What a block has found: the rows in its set, those rows by slot, and the slot for the key of
each row; the slot is `none` for inactive rows, where the source has -1. -/
structure Mapping where
  sharedSet : List Nat
  sharedSetIndices : List Nat
  localMappingIndex : Nat → Option Nat

def Mapping.cardinality (m : Mapping) : Nat := m.sharedSetIndices.length

def Mapping.empty : Mapping := ⟨[], [], fun _ => none⟩

/-- `local_mapping_index` when the threads of a block meet at the barrier: a row that is inserted
has the next slot. -/
def slotAtBarrier (m : Mapping) (rows inserted sharedSetIndices : List Nat) (row : Nat) :
    Option Nat :=
  if row ∈ inserted then some (sharedSetIndices.idxOf row)
  else if row ∈ rows ∧ !L.maskByte row then none
  else m.localMappingIndex row

/-- `find_local_mapping` for all threads of a block. After the barrier, the rows that were not
inserted get the slot of the row found in the set. -/
def findLocalMapping (arrivals numbering : List Nat → List Nat) (rows : List Nat) (m : Mapping) :
    Mapping :=
  let sharedSet := KeyedSet.insertAll L.key m.sharedSet (arrivals (rows.filter L.maskByte))
  let inserted := sharedSet.drop m.sharedSet.length
  let sharedSetIndices := m.sharedSetIndices ++ numbering inserted
  { sharedSet, sharedSetIndices
    localMappingIndex := fun row =>
      if row ∈ rows ∧ L.maskByte row ∧ row ∉ inserted then
        (KeyedSet.find L.key sharedSet (L.key row)).bind
          (L.slotAtBarrier m rows inserted sharedSetIndices)
      else L.slotAtBarrier m rows inserted sharedSetIndices row }

/-- The loop of `compute_mapping_indices`, which ends early if there are too many keys. -/
def mapLoops (block : Nat) : List Nat → Mapping → Mapping
  | [], m => m
  | loop :: loops, m =>
    let m := L.findLocalMapping (σ.arrivals block loop) (σ.numbering block loop)
      (L.loopRows block loop) m
    if cardinalityThreshold ≤ m.cardinality then m else mapLoops block loops m

/-- What `compute_mapping_indices` finds for a block. -/
def mapping (block : Nat) : Mapping := L.mapLoops σ block (List.range L.numLoops) .empty

def blockCardinality (block : Nat) : Nat := (L.mapping σ block).cardinality

def directAggregations : Bool :=
  (List.range L.gridSize).any fun block => cardinalityThreshold ≤ L.blockCardinality σ block

/-- The slots of the blocks that go on to insert their keys into the global set. -/
def slots : List (Nat × Nat) :=
  ((List.range L.gridSize).filter fun block =>
      L.blockCardinality σ block < cardinalityThreshold).flatMap fun block =>
    (List.range (L.blockCardinality σ block)).map fun slot => (block, slot)

/-- `shared_set_indices` of a block. -/
def slotRow (slot : Nat × Nat) : Nat := (L.mapping σ slot.1).sharedSetIndices.getD slot.2 0

/-- `get_num_active_keys`: the sum of the mask, which leaves out NULLs. -/
def numActiveKeys : Nat :=
  (List.range L.numInputRows).countP fun row => L.maskByte row && !L.maskNull row

/-- The capacity of the global set, for a load factor of one half. -/
def globalSetCapacity : Nat := 2 * L.numActiveKeys

/-- The global set once all blocks are through with `compute_mapping_indices`. -/
def globalSet : Option (List Nat) :=
  KeyedSet.insertAllWithin L.key L.globalSetCapacity []
    ((σ.globalInserts (L.slots σ)).map (L.slotRow σ))

/-- `global_mapping_index`: the row in the global set with the key of a slot. -/
def globalMappingIndex (globalSet : List Nat) (slot : Nat × Nat) : Option Nat :=
  KeyedSet.find L.key globalSet (L.key (L.slotRow σ slot))

end Launch

/-! ### Batches of columns -/

def roundToMultipleOf8 (num : Nat) : Nat := divideRoundUp num 8 * 8

/-- The bytes of a column of aggregates in shared memory, with a flag for each; an aggregate is
given the 8 bytes of a `cudf::data_type`. -/
def columnSize (numAggLocations : Nat) : Nat :=
  roundToMultipleOf8 numAggLocations + roundToMultipleOf8 (8 * numAggLocations)

/-- How many of the remaining columns fit (`calculate_columns_to_aggregate`). -/
def columnsToAggregate (totalAggSize : Int) (size : Nat) :
    (remaining : Nat) → (allocated : Nat) → Nat
  | 0, _ => 0
  | remaining + 1, allocated =>
    if allocated < totalAggSize ∧ ((allocated + size : Nat) : Int) ≤ totalAggSize then
      columnsToAggregate totalAggSize size remaining (allocated + size) + 1
    else 0

/-- The batches in which `compute_aggregates` goes through the columns, each with its first column
and the one after its last, if the loop ends after so many turns. -/
def columnBatches (totalAggSize : Int) (size numColumns : Nat) :
    (turns colEnd : Nat) → Option (List (Nat × Nat))
  | 0, colEnd => if colEnd < numColumns then none else some []
  | turns + 1, colEnd =>
    if colEnd < numColumns then
      let colStart := colEnd
      let colEnd := colStart + columnsToAggregate totalAggSize size (numColumns - colStart) 0
      (columnBatches totalAggSize size numColumns turns colEnd).map ((colStart, colEnd) :: ·)
    else some []

def batchColumns (batch : Nat × Nat) : List Nat := List.range' batch.1 (batch.2 - batch.1)

/-- The number of aggregates of a block for each column: several for each key if there are
few keys. -/
def numAggLocations (cardinality : Nat) : Nat :=
  let multiplicationFactor := minShmemAggLocations / cardinality
  if 1 < multiplicationFactor then multiplicationFactor * cardinality else cardinality

/-- `shmem_agg_size`: two pointers for each column take their part of the shared memory. -/
def shmemAggSize (shmemSize numColumns : Nat) : Int :=
  shmemSize - 2 * roundToMultipleOf8 (8 * numColumns)

/-- Where the aggregates of a thread start. -/
def aggLocationOffset (cardinality thread : Nat) : Nat :=
  let multiplicationFactor := minShmemAggLocations / cardinality
  if 1 < multiplicationFactor then thread % multiplicationFactor * cardinality else 0

namespace Launch

variable (L : Launch κ) (σ : Schedule)

/-- The room for columns in the shared memory of the launch. -/
def totalAggSize : Int := shmemAggSize L.shmemSize L.numColumns

/-- The columns `compute_aggregates` goes through for a block, if its loop ends after so many turns;
none for a block without keys or with too many. -/
def blockColumns (turns block : Nat) : Option (List Nat) :=
  let cardinality := L.blockCardinality σ block
  if cardinalityThreshold ≤ cardinality ∨ cardinality = 0 then some []
  else
    (columnBatches L.totalAggSize (columnSize (numAggLocations cardinality)) L.numColumns turns
      0).map fun batches => batches.flatMap batchColumns

/-! ### Aggregates -/

variable (acc : Accumulator Nat A)

/-- `create_sparse_results_table`: unless there are direct aggregations, only the rows in the global
set are initialized. -/
def initialTable (globalSet : List Nat) : Nat → Option A := fun row =>
  if L.directAggregations σ then some acc.identity
  else if row ∈ globalSet then some acc.identity
  else none

/-- The location of the aggregate of a row in the shared memory of its block. -/
def location (block row : Nat) : Option Nat :=
  ((L.mapping σ block).localMappingIndex row).map fun slot =>
    aggLocationOffset (L.blockCardinality σ block) (row % blockSize) + slot

/-- `compute_pre_aggregrates` for a column: the aggregates in the shared memory of a block. -/
def preAggregates (block col : Nat) : Nat → A :=
  scatter (L.location σ block) acc.update (fun _ => acc.identity)
    (σ.preAggregates block col (L.blockRows block))

def locations (turns col : Nat) : List (Nat × Nat) :=
  (List.range L.gridSize).flatMap fun block =>
    (((L.blockColumns σ turns block).getD []).filter (· = col)).flatMap fun _ =>
      (List.range (numAggLocations (L.blockCardinality σ block))).map fun location =>
        (block, location)

/-- The row of the sparse table for a location. -/
def outIdx (globalSet : List Nat) (location : Nat × Nat) : Option Nat :=
  L.globalMappingIndex σ globalSet (location.1, location.2 % L.blockCardinality σ location.1)

/-- `compute_final_aggregates` for a column and all blocks. -/
def finalAggregates (turns col : Nat) (globalSet : List Nat) (table : Nat → Option A) :
    Nat → Option A :=
  scatter (L.outIdx σ globalSet)
    (fun a location => a.map (acc.merge · (L.preAggregates σ acc location.1 col location.2)))
    table (σ.finalAggregates col (L.locations σ turns col))

/-- The rows that `compute_direct_aggregates` does not skip. -/
def directRows : List Nat :=
  (List.range L.numInputRows).filter fun row =>
    L.maskByte row ∧ cardinalityThreshold ≤ L.blockCardinality σ (row % L.stride / blockSize)

/-- The global set once `compute_direct_aggregates` is through, if there are direct aggregations. -/
def directSet (globalSet : List Nat) : Option (List Nat) :=
  if L.directAggregations σ then
    KeyedSet.insertAllWithin L.key L.globalSetCapacity globalSet (σ.directInserts (L.directRows σ))
  else some globalSet

/-- `compute_direct_aggregates` for a column, if there are direct aggregations. -/
def directAggregates (col : Nat) (globalSet : List Nat) (table : Nat → Option A) : Nat → Option A :=
  if L.directAggregations σ then
    scatter (fun row => KeyedSet.find L.key globalSet (L.key row))
      (fun a row => a.map (acc.update · row)) table (σ.directAggregates col (L.directRows σ))
  else table

/-- `compute_single_pass_set_aggs` and the results for the rows in the global set: `none` if the
kernels do not return after so many turns of the loop over the columns, or there is no room in the
global set. -/
def groupby (acc : Nat → Accumulator Nat A) (turns : Nat) : Option (List (Nat × List (Option A))) :=
  (L.globalSet σ).bind fun smallSet =>
    if (List.range L.gridSize).all fun block => (L.blockColumns σ turns block).isSome then
      (L.directSet σ smallSet).map fun globalSet =>
        (σ.retrieval globalSet).map fun row =>
          (row, (List.range L.numColumns).map fun col =>
            L.directAggregates σ (acc col) col globalSet
              (L.finalAggregates σ (acc col) turns col smallSet
                (L.initialTable σ (acc col) smallSet)) row)
    else none

end Launch

end Gqe.HashGroupBy
