import Gqe.Lib.Slices
import Gqe.Storage.ReadWriteTasks

/-!
# Compressed slices of a column

How a column of a fixed-width type is stored in compressed slices (`storage/sliced_columns.cpp`):
data and null mask are cut at accumulated positions into one buffer for each partition, and the
buffers are compressed. Values and mask words are the units here, not bytes.
-/

namespace Gqe.Storage

open ZoneMap Slices List

/-- What ends a read or a write early: an exception, an assertion that fails, or an operation whose
behavior is undefined. -/
inductive Fault where
  | throws (what : String)
  | assertionFails (what : String)
  | outOfBounds
  | uninitialized
  | badCast
  deriving DecidableEq

/-! ### Columns -/

/-- Bit `i % 32` of word `i / 32` is set if row `i` is valid. -/
abbrev NullMask := List (BitVec 32)

namespace NullMask

def isValid (mask : NullMask) (i : Nat) : Bool := (mask.getD (i / 32) 0).getLsbD (i % 32)

/-- `cudf::null_count`: the unset bits from `start` on, up to `stop`. -/
@[simp] def nullCount (mask : NullMask) (start stop : Nat) : Nat :=
  (range' start (stop - start)).countP fun i => !mask.isValid i

end NullMask

/-- A `cudf::column` of a fixed-width type, whose mask has a bit for every row. -/
structure FixedWidthColumn (V : Type) where
  data : List V
  nullMask : Option NullMask
  covers : ∀ mask ∈ nullMask, data.length ≤ 32 * mask.length
  size_lt : data.length < 2 ^ 31

namespace FixedWidthColumn

variable {V : Type} (c : FixedWidthColumn V)

def size : Nat := c.data.length

def isValid (i : Nat) : Bool :=
  match c.nullMask with
  | none => true
  | some mask => mask.isValid i

@[simp] def nullCount : Nat :=
  match c.nullMask with
  | none => 0
  | some mask => mask.nullCount 0 c.size

variable {c} in
lemma isValid_of_mask {mask : NullMask} (h : c.nullMask = some mask) :
    c.isValid = mask.isValid := by
  funext i
  rw [isValid, h]

/-- The rows, `none` for NULL. -/
def values : List (Option V) :=
  c.data.mapIdx fun i v => if c.isValid i then some v else none

end FixedWidthColumn

/-! ### Buffers -/

/-- The compression library. A batch of buffers is kept compressed if that makes it smaller. -/
structure Nvcomp where
  Compressed : Type → Type
  compress : ∀ {α : Type}, List α → Compressed α
  decompress : ∀ {α : Type}, Compressed α → List α
  decompress_compress : ∀ {α : Type} (buffer : List α), decompress (compress buffer) = buffer
  isKept : ∀ {α : Type}, List (List α) → Bool

/-- `buffer_storage`: one buffer for each partition. -/
inductive BufferStorage (N : Nvcomp) (α : Type) where
  | uncompressed (buffers : List (List α))
  | compressed (buffers : List (N.Compressed α))

def Nvcomp.compressBatch (N : Nvcomp) {α : Type} (buffers : List (List α)) : BufferStorage N α :=
  if N.isKept buffers then .compressed (buffers.map N.compress) else .uncompressed buffers

/-- The buffer of a partition, decompressed. -/
def BufferStorage.partition {N : Nvcomp} {α : Type} (s : BufferStorage N α) (k : Nat) :
    Option (List α) :=
  match s with
  | .uncompressed buffers => buffers[k]?
  | .compressed buffers => buffers[k]?.map N.decompress

lemma partition_compress (N : Nvcomp) {α : Type} (buffers : List (List α)) (k : Nat) :
    (N.compressBatch buffers).partition k = buffers[k]? := by
  unfold Nvcomp.compressBatch
  split_ifs
  · rw [BufferStorage.partition]
    simp [Function.comp_def, N.decompress_compress]
  · rfl

/-! ### Slices -/

/-- The rows of a partition, `row_count`. -/
def rowCount (numRows partitionSize k : Nat) : Nat :=
  min (numRows - k * partitionSize) partitionSize

/-- The loop of `do_compress`: the next slice starts where the last one has ended. -/
def cutSlices {α : Type} (input : List α) :
    (startIx : Nat) → List Nat → Except Fault (List (List α))
  | _, [] => .ok []
  | startIx, size :: sizes =>
    if startIx + size ≤ input.length then do
      let slices ← cutSlices input (startIx + size) sizes
      .ok (slice input startIx (startIx + size) :: slices)
    else .error .outOfBounds

/-- `do_compress`, where `size` is the length of the slice for a number of rows. The batch of copies
must not be empty. -/
def doCompress (N : Nvcomp) {α : Type} (input : List α) (numRows numPartitions partitionSize : Nat)
    (size : Nat → Nat) : Except Fault (BufferStorage N α) :=
  if numPartitions = 0 then .error (.assertionFails "Must at least copy a single buffer")
  else do
    let slices ← cutSlices input 0 ((range numPartitions).map fun k =>
      size (rowCount numRows partitionSize k))
    .ok (N.compressBatch slices)

def maskWords (rows : Nat) : Nat := divideRoundUp rows 32

structure CompressedSlicedColumn (N : Nvcomp) (V : Type) where
  partitionSize : Nat
  size : Nat
  dataBuffer : BufferStorage N V
  nullMaskBuffer : BufferStorage N (BitVec 32)
  nullCounts : List Nat

/-- The constructor of `compressed_sliced_column` with `compress`. The mask is stored if there are
NULLs. -/
def CompressedSlicedColumn.compress (N : Nvcomp) {V : Type} (partitionSize : Int)
    (column : FixedWidthColumn V) : Except Fault (CompressedSlicedColumn N V) :=
  if partitionSize ≤ 0 then
    .error (.throws "compressed_sliced_column requires a positive partition size.")
  else do
    let partitionSize := partitionSize.toNat
    let numRows := column.size
    let numPartitions := divideRoundUp numRows partitionSize
    let dataBuffer ← doCompress N column.data numRows numPartitions partitionSize id
    match column.nullMask with
    | some mask =>
      if 0 < column.nullCount then
        let nullMaskBuffer ← doCompress N mask numRows numPartitions partitionSize maskWords
        let nullCounts := (range numPartitions).map fun k =>
          mask.nullCount (k * partitionSize) (min (k * partitionSize + partitionSize) numRows)
        .ok ⟨partitionSize, numRows, dataBuffer, nullMaskBuffer, nullCounts⟩
      else .ok ⟨partitionSize, numRows, dataBuffer, .uncompressed [], []⟩
    | none => .ok ⟨partitionSize, numRows, dataBuffer, .uncompressed [], []⟩

/-! ### Where the slices are cut -/

section Cut

variable {α : Type} {input : List α}

lemma cutSlices_eq_ok {startIx : Nat} {sizes : List Nat} (h : startIx + sizes.sum ≤ input.length) :
    cutSlices input startIx sizes = .ok ((range sizes.length).map fun k =>
      slice input (startIx + (sizes.take k).sum) (startIx + (sizes.take (k + 1)).sum)) := by
  induction sizes generalizing startIx with
  | nil => rfl
  | cons size sizes ih =>
    rw [sum_cons, ← Nat.add_assoc] at h
    rw [cutSlices, if_pos (Nat.le_trans (Nat.le_add_right ..) h), ih h, length_cons,
      range_succ_eq_map]
    simp [Nat.add_assoc]

variable {numRows partitionSize k : Nat}

lemma rowCount_eq_partitionSize (h : (k + 1) * partitionSize ≤ numRows) :
    rowCount numRows partitionSize k = partitionSize := by
  rw [Nat.succ_mul] at h
  unfold rowCount
  omega

lemma mul_add_rowCount (h : k * partitionSize < numRows) :
    k * partitionSize + rowCount numRows partitionSize k =
      min (k * partitionSize + partitionSize) numRows := by
  unfold rowCount
  omega

lemma sum_map_rowCount (size : Nat → Nat) (h : k * partitionSize ≤ numRows) :
    ((range k).map fun j => size (rowCount numRows partitionSize j)).sum =
      k * size partitionSize := by
  induction k with
  | zero => simp
  | succ k ih =>
    rw [range_succ, map_append, sum_append, map_singleton, sum_singleton,
      rowCount_eq_partitionSize h, Nat.succ_mul, ih]
    exact Nat.le_trans (Nat.mul_le_mul_right _ (Nat.le_succ k)) h

def sliceSizes (numRows partitionSize : Nat) (size : Nat → Nat) : List Nat :=
  (range (divideRoundUp numRows partitionSize)).map fun k =>
    size (rowCount numRows partitionSize k)

def sliceAt (input : List α) (numRows partitionSize : Nat) (size : Nat → Nat) (k : Nat) : List α :=
  slice input (k * size partitionSize)
    (k * size partitionSize + size (rowCount numRows partitionSize k))

lemma take_sliceSizes (size : Nat → Nat) (hk : k ≤ divideRoundUp numRows partitionSize) :
    (sliceSizes numRows partitionSize size).take k =
      (range k).map fun j => size (rowCount numRows partitionSize j) := by
  rw [sliceSizes, ← map_take, take_range, Nat.min_eq_left hk]

variable (hpos : 0 < partitionSize)
include hpos

section

variable (size : Nat → Nat) (hk : k < divideRoundUp numRows partitionSize)
include size hk

lemma sum_take_sliceSizes :
    ((sliceSizes numRows partitionSize size).take k).sum = k * size partitionSize := by
  rw [take_sliceSizes size (Nat.le_of_lt hk)]
  exact sum_map_rowCount size (Nat.le_of_lt ((lt_divideRoundUp hpos k).1 hk))

lemma sum_take_succ_sliceSizes :
    ((sliceSizes numRows partitionSize size).take (k + 1)).sum =
      k * size partitionSize + size (rowCount numRows partitionSize k) := by
  rw [take_sliceSizes size hk, range_succ, map_append, sum_append, map_singleton, sum_singleton]
  rw [sum_map_rowCount size (Nat.le_of_lt ((lt_divideRoundUp hpos k).1 hk))]

end

/-- The slices are stored if the last one ends inside the input. -/
lemma doCompress_eq_ok (N : Nvcomp) (size : Nat → Nat) (hrows : 0 < numRows)
    (h : (sliceSizes numRows partitionSize size).sum ≤ input.length) :
    doCompress N input numRows (divideRoundUp numRows partitionSize) partitionSize size =
      .ok (N.compressBatch ((range (divideRoundUp numRows partitionSize)).map
        (sliceAt input numRows partitionSize size))) := by
  have hcut : cutSlices input 0 (sliceSizes numRows partitionSize size) =
      .ok ((range (divideRoundUp numRows partitionSize)).map
        (sliceAt input numRows partitionSize size)) := by
    rw [cutSlices_eq_ok (by rwa [Nat.zero_add])]
    congr 1
    rw [sliceSizes, length_map, length_range]
    apply map_congr_left
    intro k hk
    rw [mem_range] at hk
    rw [← sliceSizes, Nat.zero_add, Nat.zero_add, sum_take_sliceSizes hpos size hk,
      sum_take_succ_sliceSizes hpos size hk, sliceAt]
  rw [doCompress, if_neg (Nat.ne_of_gt (divideRoundUp_pos hrows hpos)), ← sliceSizes, hcut]
  rfl

lemma sum_sliceSizes (hrows : 0 < numRows) (size : Nat → Nat) :
    ∃ k < divideRoundUp numRows partitionSize, (sliceSizes numRows partitionSize size).sum =
        k * size partitionSize + size (rowCount numRows partitionSize k) := by
  have hpartitions := divideRoundUp_pos hrows hpos
  refine ⟨divideRoundUp numRows partitionSize - 1, by omega, ?_⟩
  rw [← sum_take_succ_sliceSizes hpos size (by omega), take_of_length_le]
  rw [sliceSizes, length_map, length_range]
  omega

lemma doCompress_data {N : Nvcomp} {V : Type} {column : FixedWidthColumn V}
    (hrows : 0 < column.size) :
    doCompress N column.data column.size (divideRoundUp column.size partitionSize) partitionSize
        id = .ok (N.compressBatch ((range (divideRoundUp column.size partitionSize)).map
        (sliceAt column.data column.size partitionSize id))) := by
  apply doCompress_eq_ok hpos N id hrows
  obtain ⟨k, hk, hsum⟩ := sum_sliceSizes hpos hrows id
  have hend := mul_add_rowCount ((lt_divideRoundUp hpos k).1 hk)
  rw [hsum, id, id, hend]
  exact Nat.min_le_right ..

end Cut

end Gqe.Storage
