import Mathlib.Algebra.GroupWithZero.Nat
import Gqe.HashGroupBy.Mapping

/-!
# The columns and the locations in shared memory

A block that aggregates in shared memory goes through all columns in batches, as many in each as
there is room for. The loop over the batches ends unless there is no room even for one column.
-/

namespace Gqe.HashGroupBy

open List Option

variable {κ : Type*} [DecidableEq κ]

/-! ### Batches of columns -/

section Columns

variable {totalAggSize : Int} {size numColumns : Nat}

lemma columnsToAggregate_le (remaining allocated : Nat) :
    columnsToAggregate totalAggSize size remaining allocated ≤ remaining := by
  induction remaining generalizing allocated with
  | zero => exact Nat.le_refl 0
  | succ remaining ih =>
    rw [columnsToAggregate]
    split
    · exact Nat.succ_le_succ (ih _)
    · exact Nat.zero_le _

lemma columnsToAggregate_pos_iff (hsz : 0 < size) {remaining : Nat} (h : 0 < remaining) :
    0 < columnsToAggregate totalAggSize size remaining 0 ↔ (size : Int) ≤ totalAggSize := by
  obtain ⟨remaining, rfl⟩ := Nat.exists_eq_succ_of_ne_zero h.ne'
  rw [columnsToAggregate]
  split <;> omega

variable {colEnd : Nat} {turns : Nat} {batches : List (Nat × Nat)}

/-- The batches are made up of all columns, each of them once. -/
lemma flatMap_columnBatches (hcolEnd : colEnd ≤ numColumns)
    (h : columnBatches totalAggSize size numColumns turns colEnd = some batches) :
    batches.flatMap batchColumns = range' colEnd (numColumns - colEnd) := by
  induction turns generalizing colEnd batches with
  | zero =>
    rw [columnBatches] at h
    split at h
    · cases h
    · obtain rfl := some.inj h
      rw [Nat.sub_eq_zero_of_le (by omega)]
      rfl
  | succ turns ih =>
    rw [columnBatches] at h
    split at h
    · obtain ⟨batches, hbatches, rfl⟩ := map_eq_some_iff.1 h
      have hle : columnsToAggregate totalAggSize size (numColumns - colEnd) 0 ≤
          numColumns - colEnd := columnsToAggregate_le _ _
      rw [flatMap_cons, ih (by omega) hbatches, batchColumns, Nat.add_sub_cancel_left,
        range'_append_1]
      congr 1
      omega
    · obtain rfl := some.inj h
      rw [Nat.sub_eq_zero_of_le (by omega)]
      rfl

/-- With room for a column, each turn takes at least one. -/
lemma isSome_columnBatches (hsz : 0 < size) (hfit : (size : Int) ≤ totalAggSize)
    (hturns : numColumns ≤ colEnd + turns) :
    (columnBatches totalAggSize size numColumns turns colEnd).isSome := by
  induction turns generalizing colEnd with
  | zero =>
    rw [columnBatches, if_neg (by omega)]
    rfl
  | succ turns ih =>
    rw [columnBatches]
    split
    · rename_i hlt
      have hpos := (columnsToAggregate_pos_iff hsz (Nat.sub_pos_of_lt hlt)).2 hfit
      rw [isSome_map]
      exact ih (by omega)
    · rfl

/-- Without room for a column, the loop does not end. -/
lemma columnBatches_eq_none (hsz : 0 < size) (hfit : totalAggSize < size) (turns : Nat)
    (hcolEnd : colEnd < numColumns) :
    columnBatches totalAggSize size numColumns turns colEnd = none := by
  induction turns with
  | zero => rw [columnBatches, if_pos hcolEnd]
  | succ turns ih =>
    have hzero : columnsToAggregate totalAggSize size (numColumns - colEnd) 0 = 0 := by
      have hpos : 0 < columnsToAggregate totalAggSize size (numColumns - colEnd) 0 ↔
          (size : Int) ≤ totalAggSize := columnsToAggregate_pos_iff hsz (Nat.sub_pos_of_lt hcolEnd)
      omega
    rw [columnBatches, if_pos hcolEnd]
    simp [hzero, ih]

lemma columnsToAggregate_mul_le (remaining : Nat) {allocated : Nat} (h : allocated ≤ totalAggSize) :
    (allocated + columnsToAggregate totalAggSize size remaining allocated * size : Int) ≤
      totalAggSize := by
  induction remaining generalizing allocated with
  | zero => simpa [columnsToAggregate] using h
  | succ remaining ih =>
    rw [columnsToAggregate]
    split
    · rename_i hfit
      have hle := ih hfit.2
      rw [Int.natCast_succ, Int.add_mul]
      omega
    · simpa using h

/-- No batch is larger than the room there is. -/
lemma mul_le_of_mem_columnBatches (h : 0 ≤ totalAggSize)
    (hbatches : columnBatches totalAggSize size numColumns turns colEnd = some batches) :
    ∀ batch ∈ batches, ((batch.2 - batch.1 : Nat) * size : Int) ≤ totalAggSize := by
  induction turns generalizing colEnd batches with
  | zero =>
    rw [columnBatches] at hbatches
    split at hbatches <;> simp_all
  | succ turns ih =>
    rw [columnBatches] at hbatches
    split at hbatches
    · obtain ⟨batches, hrest, rfl⟩ := map_eq_some_iff.1 hbatches
      refine forall_mem_cons.2 ⟨?_, ih hrest⟩
      simpa using @columnsToAggregate_mul_le totalAggSize size (numColumns - colEnd) 0 h
    · simp_all

end Columns

variable {cardinality : Nat}

lemma numAggLocations_pos (h : 0 < cardinality) : 0 < numAggLocations cardinality := by
  unfold numAggLocations
  by_cases hfac : 1 < minShmemAggLocations / cardinality
  · rw [if_pos hfac]
    exact Nat.mul_pos (Nat.zero_lt_of_lt hfac) h
  · rwa [if_neg hfac]

lemma columnSize_pos (h : 0 < cardinality) : 0 < columnSize (numAggLocations cardinality) := by
  have hpos := numAggLocations_pos h
  refine Nat.add_pos_left (Nat.mul_pos ?_ (by decide)) _
  rw [ZoneMap.lt_divideRoundUp (by decide)]
  simpa using hpos

/-! ### Columns of given widths -/

/-- What the columns of a batch take in shared memory, with a flag for each aggregate. -/
def batchSize (numAggLocations : Nat) (widths : List Nat) (batch : Nat × Nat) : Nat :=
  ((batchColumns batch).map fun column => roundToMultipleOf8 numAggLocations +
    roundToMultipleOf8 (widths.getD column 0 * numAggLocations)).sum

/-- The loop over the batches ends, each column is in one of them, and each of them fits. -/
def IsBatched (shmemSize numAggLocations : Nat) (widths : List Nat) : Prop :=
  ∃ turns batches, columnBatches (shmemAggSize shmemSize widths.length)
      (columnSize numAggLocations) widths.length turns 0 = some batches ∧
    batches.flatMap batchColumns = range widths.length ∧
    ∀ batch ∈ batches, batchSize numAggLocations widths batch ≤ shmemAggSize shmemSize widths.length

variable {widths : List Nat}

lemma batchSize_le (h : ∀ width ∈ widths, width ≤ 8) (numAggLocations : Nat) (batch : Nat × Nat) :
    batchSize numAggLocations widths batch ≤ (batch.2 - batch.1) * columnSize numAggLocations := by
  have hcolumn : ∀ column, roundToMultipleOf8 numAggLocations +
      roundToMultipleOf8 (widths.getD column 0 * numAggLocations) ≤ columnSize numAggLocations := by
    intro column
    have hwidth : widths.getD column 0 ≤ 8 := by
      rw [getD_eq_getElem?_getD]
      cases hwidth : widths[column]? with
      | none => exact Nat.zero_le 8
      | some width => exact h width (mem_of_getElem? hwidth)
    have hmul := Nat.mul_le_mul_right numAggLocations hwidth
    unfold columnSize roundToMultipleOf8 ZoneMap.divideRoundUp
    split_ifs <;> omega
  obtain ⟨start, stop⟩ := batch
  simp only [batchSize, batchColumns]
  generalize stop - start = n
  induction n generalizing start with
  | zero => exact Nat.zero_le _
  | succ n ih =>
    rw [range'_succ, map_cons, sum_cons, Nat.succ_mul, Nat.add_comm]
    exact Nat.add_le_add (ih _) (hcolumn _)

/-- Columns of at most eight bytes are batched if and only if there is room for one of them. -/
theorem isBatched_iff (shmemSize : Nat) (hcardinality : 0 < cardinality)
    (hwidths : ∀ width ∈ widths, width ≤ 8) :
    IsBatched shmemSize (numAggLocations cardinality) widths ↔ widths = [] ∨
      columnSize (numAggLocations cardinality) ≤ shmemAggSize shmemSize widths.length := by
  have hpos := columnSize_pos hcardinality
  constructor
  · rintro ⟨turns, batches, hbatches, -⟩
    rw [or_iff_not_imp_left]
    intro hne
    by_contra hlt
    rw [columnBatches_eq_none hpos (Int.not_le.1 hlt) turns (length_pos_iff.2 hne)] at hbatches
    cases hbatches
  · rintro (rfl | hle)
    · exact ⟨0, [], rfl, rfl, forall_mem_nil _⟩
    · obtain ⟨batches, hbatches⟩ := isSome_iff_exists.1
        (isSome_columnBatches hpos hle (Nat.le_add_left widths.length 0))
      refine ⟨_, batches, hbatches, ?_, fun batch hbatch => ?_⟩
      · rw [flatMap_columnBatches (Nat.zero_le _) hbatches, Nat.sub_zero, ← range_eq_range']
      · exact Int.le_trans (by exact_mod_cast batchSize_le hwidths _ batch)
          (mul_le_of_mem_columnBatches (by omega) hbatches batch hbatch)

theorem isBatched_three : IsBatched 1024 (numAggLocations 20) [4, 8, 8] :=
  (isBatched_iff 1024 (by decide) (by decide)).2 (.inr (by decide))

/-- Without room for the aggregates of a hundred keys, the loop does not end. -/
theorem not_isBatched_small : ¬ IsBatched 256 (numAggLocations 100) [8] := by
  rintro ⟨turns, batches, hbatches, -⟩
  rw [columnBatches_eq_none (by decide) (by decide) turns (by decide)] at hbatches
  cases hbatches

lemma aggLocation_lt {slot : Nat} (thread : Nat) (hslot : slot < cardinality) :
    aggLocationOffset cardinality thread + slot < numAggLocations cardinality := by
  unfold aggLocationOffset numAggLocations
  by_cases hfac : 1 < minShmemAggLocations / cardinality
  · rw [if_pos hfac, if_pos hfac]
    have hmod := Nat.mod_lt thread (Nat.zero_lt_of_lt hfac)
    calc thread % (minShmemAggLocations / cardinality) * cardinality + slot
        < (thread % (minShmemAggLocations / cardinality) + 1) * cardinality := by
          rw [Nat.succ_mul]
          exact Nat.add_lt_add_left hslot _
      _ ≤ minShmemAggLocations / cardinality * cardinality := Nat.mul_le_mul_right _ hmod
  · rw [if_neg hfac, if_neg hfac, Nat.zero_add]
    exact hslot

lemma aggLocation_mod {slot : Nat} (thread : Nat) (hslot : slot < cardinality) :
    (aggLocationOffset cardinality thread + slot) % cardinality = slot := by
  unfold aggLocationOffset
  by_cases hfac : 1 < minShmemAggLocations / cardinality
  · rw [if_pos hfac, Nat.mul_add_mod', Nat.mod_eq_of_lt hslot]
  · rw [if_neg hfac, Nat.zero_add, Nat.mod_eq_of_lt hslot]

namespace Launch

variable (L : Launch κ) (σ : Schedule)

/-- There is room for a column in the shared memory of every block with few keys. -/
def ColumnsFit : Prop :=
  L.numColumns = 0 ∨ ∀ block < L.gridSize, 0 < L.distinctKeys (L.blockRows block) →
    L.distinctKeys (L.blockRows block) < cardinalityThreshold →
      (columnSize (numAggLocations (L.distinctKeys (L.blockRows block))) : Int) ≤ L.totalAggSize

instance : Decidable L.ColumnsFit := inferInstanceAs (Decidable (_ ∨ _))

lemma columnsFit_of_inactive (h : ∀ row < L.numInputRows, ¬L.maskByte row) : L.ColumnsFit := by
  refine .inr fun block hblk hpos => ?_
  have hnil : (L.blockRows block).filter L.maskByte = [] := by
    refine filter_eq_nil_iff.2 fun row hrow => ?_
    exact h row ((L.mem_blockRows_iff hblk).1 hrow).1
  rw [distinctKeys, hnil] at hpos
  exact absurd hpos (Nat.lt_irrefl 0)

/-- A block with few keys, but not without keys. -/
def IsSmall (block : Nat) : Prop :=
  0 < L.blockCardinality σ block ∧ L.blockCardinality σ block < cardinalityThreshold

variable {L σ} {turns block : Nat}

lemma IsSmall.blockColumns_eq (h : L.IsSmall σ block) : L.blockColumns σ turns block =
      (columnBatches L.totalAggSize (columnSize (numAggLocations (L.blockCardinality σ block)))
        L.numColumns turns 0).map fun batches => batches.flatMap batchColumns := by
  rw [blockColumns, if_neg]
  rintro (hlarge | hzero)
  · exact absurd h.2 (Nat.not_lt_of_le hlarge)
  · exact absurd h.1 (by omega)

lemma blockColumns_of_not (h : ¬L.IsSmall σ block) :
    L.blockColumns σ turns block = some [] := by
  rw [blockColumns, if_pos]
  rw [IsSmall] at h
  omega

lemma IsSmall.eq_range_of_blockColumns (h : L.IsSmall σ block) {columns : List Nat}
    (hcols : L.blockColumns σ turns block = some columns) : columns = range L.numColumns := by
  rw [h.blockColumns_eq] at hcols
  obtain ⟨batches, hbatches, rfl⟩ := map_eq_some_iff.1 hcols
  rw [flatMap_columnBatches (Nat.zero_le _) hbatches, Nat.sub_zero, ← range_eq_range']

variable (L σ)

lemma isSome_of_columnsFit (h : L.ColumnsFit) {block : Nat} (hblk : block < L.gridSize) :
    (L.blockColumns σ L.numColumns block).isSome := by
  by_cases hsm : L.IsSmall σ block
  · rw [hsm.blockColumns_eq, isSome_map]
    have heq := L.blockCardinality_eq σ hsm.2
    rcases h with hzero | hfit
    · simp [hzero, columnBatches]
    · refine isSome_columnBatches (columnSize_pos hsm.1) ?_ (by omega)
      have hsm' := hsm
      rw [IsSmall, heq] at hsm'
      rw [heq]
      exact hfit block hblk hsm'.1 hsm'.2
  · rw [blockColumns_of_not hsm]
    rfl

lemma columnsFit_of_isSome (h : ∀ block < L.gridSize, (L.blockColumns σ turns block).isSome) :
    L.ColumnsFit := by
  by_contra hfit
  simp only [ColumnsFit, not_or, not_forall, Int.not_le] at hfit
  obtain ⟨hcols, block, hblk, hpos, hlt, hsz⟩ := hfit
  have hcard := (L.blockCardinality_lt_iff σ block).2 hlt
  rw [← L.blockCardinality_eq σ hcard] at hpos hsz
  have hsm : L.IsSmall σ block := ⟨hpos, hcard⟩
  have hsome := h block hblk
  rw [hsm.blockColumns_eq,
    columnBatches_eq_none (columnSize_pos hpos) hsz turns (Nat.pos_of_ne_zero hcols)] at hsome
  cases hsome

end Launch

end Gqe.HashGroupBy
