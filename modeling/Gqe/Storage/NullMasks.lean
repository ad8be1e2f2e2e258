import Gqe.Storage.SlicedColumns

/-!
# Slices of null masks

The slices of a null mask are cut at words, the partitions of the rows at rows: the slices describe
the partitions if the partitions start at words, and otherwise only the first one does.
-/

namespace Gqe.Storage

open ZoneMap Slices List CompressedSlicedColumn NullMask Option BitVec

variable {N : Nvcomp} {V : Type} {numRows partitionSize : Nat}

/-- The stored slices, read with their first bit as the first row of the partition, give the
validity of its rows and the NULL counts. -/
def DescribesPartitions (column : FixedWidthColumn V) (stored : CompressedSlicedColumn N V) :
    Prop :=
  ∀ k < divideRoundUp column.size stored.partitionSize,
    ∃ mask, stored.nullMaskBuffer.partition k = some mask ∧
      (∀ i < rowCount column.size stored.partitionSize k,
        isValid mask i = column.isValid (k * stored.partitionSize + i)) ∧
      stored.nullCounts[k]? =
        some (nullCount mask 0 (rowCount column.size stored.partitionSize k))

variable {mask : NullMask}

lemma isValid_slice {start stop i : Nat} (hi : start + i / 32 < stop) :
    isValid (slice mask start stop) i = mask.isValid (32 * start + i) := by
  have hdiv : (32 * start + i) / 32 = start + i / 32 := by omega
  have hmod : (32 * start + i) % 32 = i % 32 := by omega
  rw [isValid, isValid, hdiv, hmod, slice, getD_eq_getElem?_getD,
    getD_eq_getElem?_getD, getElem?_drop, getElem?_take_of_lt hi]

/-! ### Partitions that start at words -/

/-- The first bit of each slice is the first row of its partition. -/
def StartsAtWords (numRows partitionSize : Nat) : Prop :=
  ∀ k < divideRoundUp numRows partitionSize, 32 * (k * maskWords partitionSize) = k * partitionSize

lemma mul_maskWords_eq_iff : 32 * maskWords partitionSize = partitionSize ↔ 32 ∣ partitionSize := by
  unfold maskWords divideRoundUp
  split_ifs <;> omega

lemma startsAtWords_iff (hpos : 0 < partitionSize) :
    StartsAtWords numRows partitionSize ↔ 32 ∣ partitionSize ∨ numRows ≤ partitionSize := by
  rw [← mul_maskWords_eq_iff]
  constructor
  · intro h
    by_cases hle : numRows ≤ partitionSize
    · exact .inr hle
    · have hone := h 1 ((lt_divideRoundUp hpos 1).2 (by omega))
      rw [Nat.one_mul, Nat.one_mul] at hone
      exact .inl hone
  · rintro (h | h) k hk
    · rw [Nat.mul_left_comm, h]
    · have hlt := (lt_divideRoundUp hpos k).1 hk
      have hzero : k = 0 := by
        by_contra hne
        have hle := Nat.le_mul_of_pos_left partitionSize (Nat.pos_of_ne_zero hne)
        omega
      rw [hzero, Nat.zero_mul, Nat.zero_mul]

/-- Slices that start with their partitions stay inside a mask for all rows. -/
lemma sum_maskWords_le (hpos : 0 < partitionSize) (hrows : 0 < numRows)
    (hcov : numRows ≤ 32 * mask.length) (hstarts : StartsAtWords numRows partitionSize) :
    (sliceSizes numRows partitionSize maskWords).sum ≤ mask.length := by
  obtain ⟨k, hk, hsum⟩ := sum_sliceSizes hpos hrows maskWords
  have hstart := hstarts k hk
  have hend := mul_add_rowCount ((lt_divideRoundUp hpos k).1 hk)
  have hwords : maskWords (rowCount numRows partitionSize k) ≤
      mask.length - k * maskWords partitionSize := by
    rw [maskWords, divideRoundUp_le_iff (by decide)]
    omega
  omega

/-- The rows of a partition in the slice for it. -/
lemma isValid_sliceAt (hstarts : StartsAtWords numRows partitionSize) {k i : Nat}
    (hk : k < divideRoundUp numRows partitionSize) (hi : i < rowCount numRows partitionSize k) :
    isValid (sliceAt mask numRows partitionSize maskWords k) i =
      mask.isValid (k * partitionSize + i) := by
  have hword : i / 32 < maskWords (rowCount numRows partitionSize k) := by
    rw [maskWords, lt_divideRoundUp (by decide)]
    omega
  rw [sliceAt, isValid_slice (by omega), hstarts k hk]

lemma nullCount_eq_of_isValid {mask mask' : NullMask} {start count : Nat}
    (h : ∀ i < count, mask'.isValid i = mask.isValid (start + i)) :
    mask.nullCount start (start + count) = mask'.nullCount 0 count := by
  rw [nullCount, nullCount, Nat.add_sub_cancel_left,
    range'_eq_map_range, countP_map, ← range_eq_range']
  apply countP_congr
  intro i hi
  rw [Function.comp_apply, h i (mem_range.1 hi)]

variable {column : FixedWidthColumn V}

/-- What is stored of a column with NULLs whose slices stay inside the mask. -/
lemma compress_eq_ok_of_mask (hpos : 0 < partitionSize) (hmask : column.nullMask = some mask)
    (hnulls : 0 < column.nullCount) (hrows : 0 < column.size)
    (hsum : (sliceSizes column.size partitionSize maskWords).sum ≤ mask.length) :
    compress N partitionSize column = .ok ⟨partitionSize, column.size,
        N.compressBatch ((range (divideRoundUp column.size partitionSize)).map
          (sliceAt column.data column.size partitionSize id)),
        N.compressBatch ((range (divideRoundUp column.size partitionSize)).map
          (sliceAt mask column.size partitionSize maskWords)),
        (range (divideRoundUp column.size partitionSize)).map fun k =>
          mask.nullCount (k * partitionSize)
            (min (k * partitionSize + partitionSize) column.size)⟩ := by
  rw [compress, if_neg (by omega)]
  simp only [Int.toNat_natCast, doCompress_data hpos hrows, hmask, hnulls,
    doCompress_eq_ok hpos N maskWords hrows hsum]
  rfl

lemma describes_of_startsAtWords (hpos : 0 < partitionSize)
    (hstarts : StartsAtWords column.size partitionSize) (hnulls : 0 < column.nullCount) :
    ∃ stored, compress N partitionSize column = .ok stored ∧ DescribesPartitions column stored := by
  obtain ⟨mask, hmask⟩ : ∃ mask, column.nullMask = some mask := by
    cases hmask : column.nullMask with
    | none => simp [hmask] at hnulls
    | some mask => exact ⟨mask, rfl⟩
  have hrows : 0 < column.size := by
    by_contra hzero
    simp [hmask, Nat.eq_zero_of_not_pos hzero]
      at hnulls
  have hsum := sum_maskWords_le hpos hrows (column.covers mask hmask) hstarts
  refine ⟨_, compress_eq_ok_of_mask hpos hmask hnulls hrows hsum, fun k hk => ?_⟩
  have hvalid : ∀ i < rowCount column.size partitionSize k,
      isValid (sliceAt mask column.size partitionSize maskWords k) i =
        mask.isValid (k * partitionSize + i) := fun i hi => isValid_sliceAt hstarts hk hi
  refine ⟨sliceAt mask column.size partitionSize maskWords k, ?_, fun i hi => ?_, ?_⟩
  · rw [partition_compress, getElem?_map, getElem?_range hk, map_some]
  · rw [FixedWidthColumn.isValid_of_mask hmask]
    exact hvalid i hi
  · rw [getElem?_map, getElem?_range hk, map_some,
      ← mul_add_rowCount ((lt_divideRoundUp hpos k).1 hk), nullCount_eq_of_isValid hvalid]

/-! ### Partitions that start inside a word -/

def nullAt (words row : Nat) : NullMask :=
  (range words).map fun w =>
    if w = row / 32 then ~~~(twoPow 32 (row % 32)) else allOnes 32

lemma isValid_nullAt {words row i : Nat} (hi : i < 32 * words) :
    (nullAt words row).isValid i = decide (i ≠ row) := by
  have hword : i / 32 < words := by omega
  rw [isValid, nullAt, getD_eq_getElem?_getD, getElem?_map,
    getElem?_range hword, map_some, getD_some]
  split_ifs with h
  · rw [getLsbD_not, getLsbD_twoPow]
    have hmod : i % 32 < 32 := Nat.mod_lt _ (by decide)
    have hrow : row % 32 < 32 := Nat.mod_lt _ (by decide)
    have hiff : row % 32 = i % 32 ↔ i = row := by omega
    simp [hmod, hrow, hiff]
  · rw [getLsbD_allOnes]
    have hne : i ≠ row := by
      rintro rfl
      exact h rfl
    simp [hne, Nat.mod_lt]

def columnNullAt (v : V) (numRows row words : Nat) (hcovers : numRows ≤ 32 * words)
    (hrows : numRows < 2 ^ 31) : FixedWidthColumn V where
  data := replicate numRows v
  nullMask := some (nullAt words row)
  covers := by
    intro mask hmask
    rw [← mem_some.1 hmask, length_replicate, nullAt, length_map, length_range]
    exact hcovers
  size_lt := by rwa [length_replicate]

lemma nullCount_columnNullAt_pos {v : V} {row words : Nat} (hcov : numRows ≤ 32 * words)
    (hrows : numRows < 2 ^ 31) (hrow : row < numRows) :
    0 < (columnNullAt v numRows row words hcov hrows).nullCount := by
  have hmask : (columnNullAt v numRows row words hcov hrows).nullMask =
      some (nullAt words row) := rfl
  have hsz : (columnNullAt v numRows row words hcov hrows).size = numRows :=
    length_replicate
  simp only [FixedWidthColumn.nullCount, hmask, hsz, nullCount, countP_pos_iff]
  refine ⟨row, by simpa using hrow, ?_⟩
  rw [isValid_nullAt (by omega)]
  simp

/-- The slice for the second partition starts after its first row. -/
lemma not_describes_columnNullAt (v : V) (hdvd : ¬32 ∣ partitionSize)
    (hlt : partitionSize < numRows) (hrows : numRows < 2 ^ 31) :
    ∃ column : FixedWidthColumn V, column.size = numRows ∧ 0 < column.nullCount ∧
      ∃ stored, compress N partitionSize column = .ok stored ∧
        ¬DescribesPartitions column stored := by
  have hpos : 0 < partitionSize := by
    apply Nat.pos_of_ne_zero
    rintro rfl
    exact hdvd (Nat.dvd_zero 32)
  -- the mask is padded up to the end of the last slice
  obtain ⟨words, hwords⟩ : ∃ words, words = (sliceSizes numRows partitionSize maskWords).sum +
    maskWords numRows + maskWords partitionSize + 1 := ⟨_, rfl⟩
  have hcov : numRows ≤ 32 * words := by
    have hle := (divideRoundUp_le_iff (by decide : 0 < 32)).1 (Nat.le_refl (maskWords numRows))
    omega
  let column := columnNullAt v numRows partitionSize words hcov hrows
  have hmask : column.nullMask = some (nullAt words partitionSize) := rfl
  have hsz : column.size = numRows := length_replicate
  have hnulls : 0 < column.nullCount := nullCount_columnNullAt_pos hcov hrows hlt
  have hsum : (sliceSizes column.size partitionSize maskWords).sum ≤
      (nullAt words partitionSize).length := by
    rw [hsz, nullAt, length_map, length_range]
    omega
  have hstored := compress_eq_ok_of_mask (N := N) hpos hmask hnulls (by omega) hsum
  refine ⟨column, hsz, hnulls, _, hstored, fun hdesc => ?_⟩
  have hone : 1 < divideRoundUp column.size partitionSize := by
    rw [lt_divideRoundUp hpos]
    omega
  obtain ⟨mask, hpartition, hvalid, -⟩ := hdesc 1 hone
  rw [partition_compress, getElem?_map, getElem?_range hone, map_some,
    some.injEq] at hpartition
  have hcnt : 0 < rowCount column.size partitionSize 1 := by
    unfold rowCount
    omega
  have hword : 0 < maskWords (rowCount column.size partitionSize 1) :=
    divideRoundUp_pos hcnt (by decide)
  have hfst := hvalid 0 hcnt
  rw [← hpartition, sliceAt, isValid_slice (by omega), FixedWidthColumn.isValid_of_mask hmask,
    isValid_nullAt (by omega), isValid_nullAt (by simp only; omega)] at hfst
  have hne := mt mul_maskWords_eq_iff.1 hdvd
  simp [hne] at hfst

/-- The slices stored for a column describe its partitions, whatever rows are NULL, if the
partitions start at words of the mask or there is a single partition. -/
theorem compress_describesPartitions_iff [Nonempty V] (N : Nvcomp) (hpos : 0 < partitionSize)
    (hrows : numRows < 2 ^ 31) :
    (∀ column : FixedWidthColumn V, column.size = numRows → 0 < column.nullCount →
      ∃ stored, compress N partitionSize column = .ok stored ∧ DescribesPartitions column stored) ↔
      32 ∣ partitionSize ∨ numRows ≤ partitionSize := by
  constructor
  · intro h
    by_contra hstarts
    push Not at hstarts
    obtain ⟨v⟩ := ‹Nonempty V›
    obtain ⟨column, hsize, hnulls, stored, hstored, hnot⟩ :=
      not_describes_columnNullAt v hstarts.1 hstarts.2 hrows
    obtain ⟨stored', hstored', hdescribes⟩ := h column hsize hnulls
    rw [hstored] at hstored'
    cases hstored'
    exact hnot hdescribes
  · rintro h column rfl hnulls
    exact describes_of_startsAtWords hpos ((startsAtWords_iff hpos).2 h) hnulls

def Nvcomp.keepsBuffers : Nvcomp where
  Compressed := List
  compress := id
  decompress := id
  decompress_compress _ := rfl
  isKept _ := false

/-- Partitions of two words. -/
theorem compress_describesPartitions_two_words : 0 < 64 ∧ 200 < 2 ^ 31 ∧ (32 ∣ 64 ∨ 200 ≤ 64) ∧
      ∀ column : FixedWidthColumn Int, column.size = 200 → 0 < column.nullCount →
        ∃ stored, compress .keepsBuffers (64 : Nat) column = .ok stored ∧
          DescribesPartitions column stored :=
  ⟨by decide, by decide, by decide,
    (compress_describesPartitions_iff .keepsBuffers (by decide) (by decide)).2 (by decide)⟩

/-- Two rows, of which the first is NULL, with a word of padding. -/
def firstOfTwoNull : FixedWidthColumn Int where
  data := [10, 20]
  nullMask := some [2, 0]
  covers := by decide
  size_lt := by decide

/-- With partitions of one row the second row is stored as NULL. -/
theorem not_describesPartitions_firstOfTwoNull :
    ¬∃ stored, compress .keepsBuffers 1 firstOfTwoNull = .ok stored ∧
      DescribesPartitions firstOfTwoNull stored := by
  rintro ⟨stored, hstored, hdescribes⟩
  cases hstored
  obtain ⟨mask, hmask, hvalid, -⟩ := hdescribes 1 (by decide)
  cases hmask
  exact absurd (hvalid 0 (by decide)) (by decide)

end Gqe.Storage
