import Gqe.HashGroupBy.Basic
import Gqe.Lib.Grouping
import Mathlib.Algebra.Group.Nat.Defs

/-!
# The rows and the keys of the blocks

The blocks share the rows among them. A block with few keys knows the slot of each of its active
rows, whatever the order in which its threads arrive.
-/

namespace Gqe.HashGroupBy

open List KeyedSet

open ZoneMap (divideRoundUp lt_divideRoundUp divideRoundUp_le_iff)

variable {κ : Type*}

namespace Launch

variable (L : Launch κ)

/-! ### The rows of the blocks -/

def blockOf (row : Nat) : Nat := row % L.stride / blockSize

lemma gridSize_pos (h : 0 < L.numInputRows) : 0 < L.gridSize := by
  refine lt_min L.detectedGridSize_pos ?_
  rw [lt_divideRoundUp (by decide)]
  simpa using h

lemma stride_pos (h : 0 < L.numInputRows) : 0 < L.stride :=
  Nat.mul_pos (by decide) (L.gridSize_pos h)

lemma blockOf_lt {row : Nat} (h : row < L.numInputRows) : L.blockOf row < L.gridSize := by
  have hstride := L.stride_pos (Nat.zero_lt_of_lt h)
  have hrow : row % L.stride < L.gridSize * blockSize := by
    rw [Nat.mul_comm]
    exact Nat.mod_lt _ hstride
  exact (Nat.div_lt_iff_lt_mul (by decide)).2 hrow

lemma mem_blockRows_iff {block row : Nat} (hblk : block < L.gridSize) :
    row ∈ L.blockRows block ↔ row < L.numInputRows ∧ L.blockOf row = block := by
  have hle : blockSize * block + blockSize ≤ L.stride := by
    exact Nat.mul_le_mul_left _ hblk
  simp only [blockRows, loopRows, mem_flatMap, mem_range, mem_filter, mem_map, decide_eq_true_eq]
  constructor
  · rintro ⟨loop, hloop, ⟨thread, hthread, rfl⟩, hrow⟩
    refine ⟨hrow, ?_⟩
    have hmod : (loop * L.stride + blockSize * block + thread) % L.stride =
        blockSize * block + thread := by
      rw [Nat.add_assoc, Nat.mul_add_mod', Nat.mod_eq_of_lt (by omega)]
    rw [blockOf, hmod, Nat.mul_add_div (by decide), Nat.div_eq_of_lt hthread, Nat.add_zero]
  · rintro ⟨hrow, hof⟩
    have hstride := L.stride_pos (Nat.zero_lt_of_lt hrow)
    have hdiv := Nat.div_add_mod' row L.stride
    have hmod := Nat.div_add_mod (row % L.stride) blockSize
    rw [blockOf] at hof
    rw [hof] at hmod
    refine ⟨row / L.stride, ?_, ⟨row % L.stride % blockSize, Nat.mod_lt _ (by decide), ?_⟩, hrow⟩
    · rw [numLoops, lt_divideRoundUp hstride]
      omega
    · omega

variable {block : Nat}

lemma nodup_blockRows (hblk : block < L.gridSize) : (L.blockRows block).Nodup := by
  have hle : blockSize * block + blockSize ≤ L.stride := by
    exact Nat.mul_le_mul_left _ hblk
  refine nodup_flatMap.2 ⟨fun loop _ => ?_, ?_⟩
  · refine List.Nodup.filter _ (List.Nodup.map ?_ nodup_range)
    exact fun thread thread' h => by simpa using h
  · refine List.Pairwise.imp_of_mem ?_ pairwise_lt_range
    intro loop loop' _ _ hlt row hrow hrow'
    simp only [loopRows, mem_filter, mem_map, mem_range] at hrow hrow'
    have hnext : (loop + 1) * L.stride ≤ loop' * L.stride := Nat.mul_le_mul_right _ hlt
    rw [Nat.succ_mul] at hnext
    omega

/-- The rows of a block are those of the input that it takes. -/
lemma blockRows_perm (hblk : block < L.gridSize) : (L.blockRows block).Perm
      ((range L.numInputRows).filter fun row => L.blockOf row = block) := by
  refine (perm_ext_iff_of_nodup (L.nodup_blockRows hblk)
    (nodup_range.filter _)).2 fun row => ?_
  rw [L.mem_blockRows_iff hblk]
  simp

/-! ### Slots -/

/-- What a block has found in some rows: a row for each key of an active row, in some slot, and the
slot for each active row. -/
structure IsMapping (rows : List Nat) (m : Mapping) : Prop where
  nodup_keys : (m.sharedSet.map L.key).Nodup
  indices_perm : m.sharedSetIndices.Perm m.sharedSet
  key_mem : ∀ row ∈ rows, L.maskByte row → L.key row ∈ m.sharedSet.map L.key
  mem_rows : ∀ row ∈ m.sharedSet, row ∈ rows ∧ L.maskByte row
  slot_of_active : ∀ row ∈ rows, L.maskByte row → ∃ slot other,
    m.localMappingIndex row = some slot ∧ m.sharedSetIndices[slot]? = some other ∧
      L.key other = L.key row
  slot_of_inactive : ∀ row ∈ rows, !L.maskByte row → m.localMappingIndex row = none

lemma isMapping_empty : L.IsMapping [] .empty where
  nodup_keys := nodup_nil
  indices_perm := List.Perm.nil
  key_mem := by simp
  mem_rows := by simp [Mapping.empty]
  slot_of_active := by simp
  slot_of_inactive := by simp

section FindLocalMapping

variable {L} {processed rows inserted : List Nat} {m : Mapping}
  {arrivals numbering : List Nat → List Nat}

lemma IsMapping.exists_slotAtBarrier (h : L.IsMapping processed m)
    (hnum : (numbering inserted).Perm inserted) {row : Nat} (hrow : row ∈ m.sharedSet ++ inserted) :
    ∃ slot other,
      L.slotAtBarrier m rows inserted (m.sharedSetIndices ++ numbering inserted) row = some slot ∧
        (m.sharedSetIndices ++ numbering inserted)[slot]? = some other ∧
        L.key other = L.key row := by
  by_cases hins : row ∈ inserted
  · have hmem : row ∈ m.sharedSetIndices ++ numbering inserted :=
      mem_append.2 (.inr (hnum.mem_iff.2 hins))
    refine ⟨_, row, if_pos hins, ?_, rfl⟩
    rw [List.getElem?_eq_getElem (idxOf_lt_length_of_mem hmem), getElem_idxOf]
  · have hset : row ∈ m.sharedSet := (mem_append.1 hrow).resolve_right hins
    obtain ⟨hproc, hact⟩ := h.mem_rows row hset
    obtain ⟨slot, other, hslot, hother, hkey⟩ := h.slot_of_active row hproc hact
    refine ⟨slot, other, ?_, ?_, hkey⟩
    · rw [slotAtBarrier, if_neg hins, if_neg (by simp [hact]), hslot]
    · rw [List.getElem?_append_left (List.getElem?_eq_some_iff.1 hother).1, hother]

variable [DecidableEq κ]

/-- One turn of the loop of a block, in any order of arrival. -/
lemma IsMapping.findLocalMapping (h : L.IsMapping processed m)
    (harrivals : ∀ rows, (arrivals rows).Perm rows)
    (hnum : ∀ rows, (numbering rows).Perm rows) (rows : List Nat) :
    L.IsMapping (processed ++ rows) (L.findLocalMapping arrivals numbering rows m) := by
  obtain ⟨inserted, hinserted⟩ : m.sharedSet <+:
      insertAll L.key m.sharedSet (arrivals (rows.filter L.maskByte)) :=
    prefix_insertAll _ _
  have hnd : ((m.sharedSet ++ inserted).map L.key).Nodup := by
    rw [hinserted]
    exact nodup_insertAll h.nodup_keys _
  have hact : ∀ row ∈ inserted, row ∈ rows ∧ L.maskByte row := by
    intro row hrow
    have hmem : row ∈ insertAll L.key m.sharedSet (arrivals (rows.filter L.maskByte)) :=
      hinserted ▸ mem_append.2 (.inr hrow)
    rcases mem_insertAll hmem with hset | harrived
    · rw [map_append, nodup_append] at hnd
      exact absurd rfl (hnd.2.2 _ (mem_map_of_mem hset) _ (mem_map_of_mem hrow))
    · simpa using (harrivals _).mem_iff.1 harrived
  have hkeys : ∀ row ∈ processed ++ rows, L.maskByte row →
      L.key row ∈ (m.sharedSet ++ inserted).map L.key := by
    intro row hrow hbyte
    rw [hinserted, mem_keys_insertAll]
    refine (mem_append.1 hrow).imp (h.key_mem row · hbyte) fun hrow => ?_
    exact mem_map_of_mem ((harrivals _).mem_iff.2 (mem_filter.2 ⟨hrow, hbyte⟩))
  simp only [Launch.findLocalMapping, ← hinserted, drop_left]
  refine ⟨hnd, h.indices_perm.append (hnum inserted), hkeys, ?_, ?_, ?_⟩
  · intro row hrow
    rcases mem_append.1 hrow with hrow | hrow
    · exact ⟨mem_append.2 (.inl (h.mem_rows row hrow).1), (h.mem_rows row hrow).2⟩
    · exact ⟨mem_append.2 (.inr (hact row hrow).1), (hact row hrow).2⟩
  · intro row hrow hbyte
    by_cases hfound : row ∈ rows ∧ L.maskByte row ∧ row ∉ inserted
    · obtain ⟨other, hother⟩ := exists_find (hkeys row hrow hbyte)
      obtain ⟨hmem, hkey⟩ := mem_of_find hother
      simp only [if_pos hfound, hother]
      rw [← hkey]
      exact h.exists_slotAtBarrier (hnum inserted) hmem
    simp only [if_neg hfound]
    by_cases hins : row ∈ inserted
    · exact h.exists_slotAtBarrier (hnum inserted) (mem_append.2 (.inr hins))
    · -- a row of an earlier turn keeps its slot
      have hrows : row ∉ rows := fun hrows => hfound ⟨hrows, hbyte, hins⟩
      have hproc : row ∈ processed := (mem_append.1 hrow).resolve_right hrows
      obtain ⟨slot, other, hslot, hother, hkey⟩ := h.slot_of_active row hproc hbyte
      refine ⟨slot, other, ?_, ?_, hkey⟩
      · rw [slotAtBarrier, if_neg hins, if_neg (by simp [hbyte]), hslot]
      · rw [List.getElem?_append_left (List.getElem?_eq_some_iff.1 hother).1, hother]
  · intro row hrow hbyte
    have hinactive : ¬L.maskByte row := by simpa using hbyte
    have hins : row ∉ inserted := fun hins => hinactive (hact row hins).2
    simp only [if_neg fun hfound : row ∈ rows ∧ L.maskByte row ∧ row ∉ inserted =>
      hinactive hfound.2.1]
    rw [slotAtBarrier, if_neg hins]
    by_cases hrows : row ∈ rows
    · rw [if_pos ⟨hrows, hbyte⟩]
    · rw [if_neg fun h => hrows h.1]
      exact h.slot_of_inactive row ((mem_append.1 hrow).resolve_right hrows) hbyte

end FindLocalMapping

/-! ### Row indices of 32 bits -/

/-- An integer as a `cudf::size_type`. -/
def sizeType (index : Int) : Int := index.bmod (2 ^ 32)

lemma sizeType_of_lt {row : Nat} (h : row < 2 ^ 31) : sizeType row = row :=
  Int.bmod_eq_of_le (by omega) (by omega)

/-- Where the threads of a block are in a turn of its loop, past the last row as well. -/
def threadRows (block loop : Nat) : List Nat :=
  (range blockSize).map fun thread => loop * L.stride + blockSize * block + thread

/-- `end_idx`, the number of rows rounded up to full turns. -/
def endIdx : Nat := L.numLoops * L.stride

variable {L} in
lemma lt_endIdx_of_mem_threadRows {loop row : Nat} (hblk : block < L.gridSize)
    (hloop : loop < L.numLoops) (hrow : row ∈ L.threadRows block loop) : row < L.endIdx := by
  obtain ⟨thread, hthread, rfl⟩ := mem_map.1 hrow
  rw [mem_range] at hthread
  have hle : blockSize * block + blockSize ≤ L.stride := Nat.mul_le_mul_left _ hblk
  have hnext : (loop + 1) * L.stride ≤ L.endIdx := Nat.mul_le_mul_right _ hloop
  rw [Nat.succ_mul] at hnext
  omega

variable {L} in
lemma exists_mem_threadRows {row : Nat} (hrow : row < L.endIdx) :
    ∃ block < L.gridSize, ∃ loop < L.numLoops, row ∈ L.threadRows block loop := by
  have hstride : 0 < L.stride := Nat.pos_of_mul_pos_left (Nat.zero_lt_of_lt hrow)
  have hblk : row % L.stride < L.gridSize * blockSize := by
    rw [Nat.mul_comm]
    exact Nat.mod_lt _ hstride
  refine ⟨row % L.stride / blockSize, (Nat.div_lt_iff_lt_mul (by decide)).2 hblk,
    row / L.stride, (Nat.div_lt_iff_lt_mul hstride).2 hrow, mem_map.2 ⟨row % L.stride % blockSize,
      mem_range.2 (Nat.mod_lt _ (by decide)), ?_⟩⟩
  rw [Nat.add_assoc, Nat.div_add_mod, Nat.div_add_mod']

lemma numInputRows_le_endIdx : L.numInputRows ≤ L.endIdx := by
  rcases Nat.eq_zero_or_pos L.numInputRows with h | h
  · omega
  · exact (divideRoundUp_le_iff (L.stride_pos h)).1 le_rfl

/-- `block_start_idx` in the first turns of the loop of `compute_pre_aggregrates`. -/
def blockStarts (start : Int) : Nat → List Int
  | 0 => []
  | turns + 1 =>
    if start < L.numInputRows then start :: blockStarts (sizeType (start + L.stride)) turns else []

/-- No row index of 32 bits overflows if there is room for one turn after the last one. The blocks
then take the rows of the launch, in which the indices have no bound. -/
lemma blockStarts_eq (hfits : L.endIdx + L.stride ≤ 2 ^ 31) (hblk : block < L.gridSize)
    (turns : Nat) {loop : Nat} (hloop : loop ≤ L.numLoops) :
    L.blockStarts (loop * L.stride + blockSize * block : Nat) turns =
      (((range' loop turns).map fun loop => loop * L.stride + blockSize * block).filter
        (· < L.numInputRows)).map Nat.cast := by
  have hle : blockSize * block + blockSize ≤ L.stride := Nat.mul_le_mul_left _ hblk
  induction turns generalizing loop with
  | zero => rfl
  | succ turns ih =>
    rw [blockStarts, range'_succ, map_cons]
    by_cases hrow : loop * L.stride + blockSize * block < L.numInputRows
    · have hlast : loop < L.numLoops := by
        refine Nat.lt_of_mul_lt_mul_right (a := L.stride) ?_
        have := L.numInputRows_le_endIdx
        rw [endIdx] at this
        omega
      have hnext : loop * L.stride + blockSize * block + L.stride =
          (loop + 1) * L.stride + blockSize * block := by rw [Nat.succ_mul]; omega
      have hturn : (loop + 1) * L.stride ≤ L.endIdx := Nat.mul_le_mul_right _ hlast
      rw [if_pos (by exact_mod_cast hrow), filter_cons_of_pos (by simpa using hrow), map_cons,
        ← ih hlast, ← Int.natCast_add, hnext, sizeType_of_lt]
      simp only [blockSize] at hle hturn ⊢
      omega
    · rw [if_neg (by exact_mod_cast hrow), filter_eq_nil_iff.2, map_nil]
      rintro _ hmem
      rw [← map_cons (f := fun loop => loop * L.stride + blockSize * block), ← range'_succ] at hmem
      obtain ⟨later, hlater, rfl⟩ := mem_map.1 hmem
      have := Nat.mul_le_mul_right L.stride (mem_range'_1.1 hlater).1
      simp only [decide_eq_true_eq]
      omega

/-! ### The keys of a block -/

variable [DecidableEq κ] (σ : Schedule)

/-- The number of different keys of the active rows among some rows. -/
def distinctKeys (rows : List Nat) : Nat := ((rows.filter L.maskByte).map L.key).dedup.length

variable {L} in
lemma IsMapping.cardinality_eq {rows : List Nat} {m : Mapping} (h : L.IsMapping rows m) :
    m.cardinality = L.distinctKeys rows := by
  have hkeys : (m.sharedSet.map L.key).Perm ((rows.filter L.maskByte).map L.key).dedup := by
    refine (perm_ext_iff_of_nodup h.nodup_keys (nodup_dedup _)).2 fun k => ?_
    rw [mem_dedup]
    constructor
    · intro hk
      obtain ⟨row, hrow, rfl⟩ := mem_map.1 hk
      exact mem_map_of_mem (mem_filter.2 (h.mem_rows row hrow))
    · intro hk
      obtain ⟨row, hrow, rfl⟩ := mem_map.1 hk
      obtain ⟨hrow, hbyte⟩ := mem_filter.1 hrow
      exact h.key_mem row hrow hbyte
  rw [Mapping.cardinality, h.indices_perm.length_eq, distinctKeys, ← hkeys.length_eq, length_map]

lemma distinctKeys_le_of_subset {rows rows' : List Nat} (h : rows ⊆ rows') :
    L.distinctKeys rows ≤ L.distinctKeys rows' := by
  refine (subperm_of_subset (nodup_dedup _) fun k hk => ?_).length_le
  rw [mem_dedup] at hk ⊢
  exact map_subset _ (filter_subset _ h) hk

/-- The loop of a block, which has seen only some of the rows if it ends early. -/
lemma isMapping_mapLoops (block : Nat) (loops : List Nat) {processed : List Nat} {m : Mapping}
    (hm : L.IsMapping processed m) (hcard : m.cardinality < cardinalityThreshold) :
    ∃ rows ⊆ processed ++ loops.flatMap (L.loopRows block),
      L.IsMapping rows (L.mapLoops σ block loops m) ∧
        ((L.mapLoops σ block loops m).cardinality < cardinalityThreshold →
          rows = processed ++ loops.flatMap (L.loopRows block)) := by
  induction loops generalizing processed m with
  | nil => exact ⟨processed, by simp, hm, fun _ => by simp⟩
  | cons loop loops ih =>
    have hstep := hm.findLocalMapping (σ.arrivals_perm block loop)
      (σ.numbering_perm block loop) (L.loopRows block loop)
    simp only [mapLoops, flatMap_cons]
    by_cases hcard : cardinalityThreshold ≤ (L.findLocalMapping (σ.arrivals block loop)
        (σ.numbering block loop) (L.loopRows block loop) m).cardinality
    · rw [if_pos hcard]
      refine ⟨_, ?_, hstep, fun hlt => absurd hcard (Nat.not_le_of_lt hlt)⟩
      rw [← append_assoc]
      exact subset_append_left _ _
    · rw [if_neg hcard, ← append_assoc]
      exact ih hstep (Nat.lt_of_not_le hcard)

lemma isMapping_mapping (block : Nat) :
    ∃ rows ⊆ L.blockRows block, L.IsMapping rows (L.mapping σ block) ∧
      (L.blockCardinality σ block < cardinalityThreshold → rows = L.blockRows block) := by
  have hcard : Mapping.empty.cardinality < cardinalityThreshold := by decide
  exact L.isMapping_mapLoops σ block (range L.numLoops) L.isMapping_empty hcard

lemma isMapping_of_lt (h : L.blockCardinality σ block < cardinalityThreshold) :
    L.IsMapping (L.blockRows block) (L.mapping σ block) := by
  obtain ⟨rows, -, hmap, hrows⟩ := L.isMapping_mapping σ block
  rwa [hrows h] at hmap

/-- Whether a block finds too many keys does not depend on the order of arrival. -/
lemma blockCardinality_lt_iff (block : Nat) : L.blockCardinality σ block < cardinalityThreshold ↔
      L.distinctKeys (L.blockRows block) < cardinalityThreshold := by
  obtain ⟨rows, hsub, hmap, hrows⟩ := L.isMapping_mapping σ block
  have hcard : L.blockCardinality σ block = L.distinctKeys rows := hmap.cardinality_eq
  constructor
  · intro h
    rwa [← hrows h, ← hcard]
  · intro h
    rw [hcard]
    exact Nat.lt_of_le_of_lt (L.distinctKeys_le_of_subset hsub) h

lemma blockCardinality_eq (h : L.blockCardinality σ block < cardinalityThreshold) :
    L.blockCardinality σ block = L.distinctKeys (L.blockRows block) :=
  (L.isMapping_of_lt σ h).cardinality_eq

/-! ### Accesses by row -/

/-- `find_local_mapping` accesses the active mask, if there is one, or `local_mapping_index` at an
index, in a turn before which the block has not found too many keys. The rows of the threads are
converted to `cudf::size_type`; `local_mapping_index` is accessed where this is less than the number
of rows, and at the rows held by the set of the block. -/
def MappingAccesses (hasMask : Bool) (block loop : Nat) (index : Int) : Prop :=
  (L.mapLoops σ block (range loop) .empty).cardinality < cardinalityThreshold ∧
    ((∃ row ∈ L.threadRows block loop, index = sizeType row ∧
        (hasMask = true ∨ index < L.numInputRows)) ∨
      ∃ row ∈ (L.mapLoops σ block (range (loop + 1)) .empty).sharedSet, index = row)

/-- The kernels access the mask or a mapping at an index: with `find_local_mapping`, with
`compute_pre_aggregrates`, or with `compute_direct_aggregates`. The last two take rows of the input
only. -/
def Accesses (hasMask : Bool) (index : Int) : Prop :=
  (∃ block < L.gridSize, (∃ loop < L.numLoops, L.MappingAccesses σ hasMask block loop index) ∨
    ∃ row ∈ L.blockRows block, index = row) ∨ ∃ row ∈ range L.numInputRows, index = row

/-- A block that finds one key takes all its turns. -/
lemma cardinality_of_constant {k : κ} (hkey : L.key = fun _ => k) (block loop : Nat) :
    (L.mapLoops σ block (range loop) .empty).cardinality < cardinalityThreshold := by
  obtain ⟨rows, -, hmap, -⟩ :=
    L.isMapping_mapLoops σ block (range loop) L.isMapping_empty (by decide)
  have hkeys : ((rows.filter L.maskByte).map L.key).dedup ⊆ [k] := by
    intro key h
    obtain ⟨row, -, rfl⟩ := mem_map.1 (mem_dedup.1 h)
    rw [hkey, mem_singleton]
  calc
    _ = ((rows.filter L.maskByte).map L.key).dedup.length := hmap.cardinality_eq
    _ ≤ 1 := (subperm_of_subset (nodup_dedup _) hkeys).length_le
    _ < cardinalityThreshold := by decide

lemma lt_of_accesses {hasMask : Bool} (hend : L.endIdx ≤ 2 ^ 31)
    (h : hasMask = false ∨ L.numInputRows % L.stride = 0) {index : Int}
    (hindex : L.Accesses σ hasMask index) : 0 ≤ index ∧ index < L.numInputRows := by
  suffices h : ∃ row < L.numInputRows, index = row by
    obtain ⟨row, hrow, rfl⟩ := h
    exact ⟨Int.natCast_nonneg row, Int.ofNat_lt.2 hrow⟩
  rcases hindex with ⟨block, hblk, ⟨loop, hloop, -, ⟨row, hrow, hindex, hread⟩ | ⟨row, hrow, rfl⟩⟩ |
    ⟨row, hrow, rfl⟩⟩ | ⟨row, hrow, rfl⟩
  · have hlt := lt_endIdx_of_mem_threadRows hblk hloop hrow
    rw [sizeType_of_lt (Nat.lt_of_lt_of_le hlt hend)] at hindex
    subst hindex
    refine ⟨row, ?_, rfl⟩
    rcases hread with rfl | hread
    · have hturns := h.resolve_left (by simp)
      have hend : L.endIdx = L.numInputRows := by
        rw [endIdx, numLoops, divideRoundUp, if_neg (by simpa using hturns), Nat.add_zero,
          Nat.div_mul_cancel (Nat.dvd_of_mod_eq_zero hturns)]
      rwa [hend] at hlt
    · exact_mod_cast hread
  · obtain ⟨rows, hrows, hmap, -⟩ :=
      L.isMapping_mapLoops σ block (range (loop + 1)) L.isMapping_empty (by decide)
    obtain ⟨turn, -, hrow⟩ := mem_flatMap.1 (hrows (hmap.mem_rows row hrow).1)
    exact ⟨row, by simpa using (mem_filter.1 hrow).2, rfl⟩
  · exact ⟨row, ((L.mem_blockRows_iff hblk).1 hrow).1, rfl⟩
  · exact ⟨row, mem_range.1 hrow, rfl⟩

/-- For a number of rows and a grid, the kernels access only rows that there are, whatever the keys
and the mask, if and only if the rows in full turns have indices of 32 bits, and there is no mask or
the blocks take all rows in full turns. -/
theorem lt_of_accesses_iff (hasMask : Bool) :
    (∀ (key : Nat → κ) (maskByte maskNull : Nat → Bool), (!hasMask → maskByte = fun _ => true) →
      ∀ index : Int, ({ L with key, maskByte, maskNull } : Launch κ).Accesses σ hasMask index →
        0 ≤ index ∧ index < L.numInputRows) ↔
    L.endIdx ≤ 2 ^ 31 ∧ (hasMask = false ∨ L.numInputRows % L.stride = 0) := by
  constructor
  · intro h
    -- with one key and all rows active, every thread takes all its turns
    have hall : ∀ row < L.endIdx, hasMask = true ∨ sizeType row < L.numInputRows →
        0 ≤ sizeType row ∧ sizeType row < L.numInputRows := by
      intro row hrow hread
      obtain ⟨block, hblk, loop, hloop, hmem⟩ := exists_mem_threadRows hrow
      exact h (fun _ => L.key 0) (fun _ => true) L.maskNull (fun _ => rfl) _
        (.inl ⟨block, hblk, .inl ⟨loop, hloop, cardinality_of_constant _ σ rfl _ _,
          .inl ⟨row, hmem, rfl, hread⟩⟩⟩)
    have hend : L.endIdx ≤ 2 ^ 31 := by
      by_contra hgt
      have hneg : sizeType ((2 ^ 31 : Nat) : Int) < 0 := by decide
      have := hall (2 ^ 31) (Nat.lt_of_not_le hgt) (.inr (by omega))
      omega
    refine ⟨hend, or_iff_not_imp_left.2 fun hmask => ?_⟩
    by_contra hmod
    have hlt : L.numInputRows < L.endIdx := by
      refine Nat.lt_of_le_of_ne L.numInputRows_le_endIdx fun heq => hmod ?_
      rw [heq, endIdx, Nat.mul_mod_left]
    have := hall L.numInputRows hlt (.inl (by simpa using hmask))
    rw [sizeType_of_lt (by omega)] at this
    omega
  · rintro ⟨hend, h⟩ key maskByte maskNull -
    exact fun _ => lt_of_accesses { L with key, maskByte, maskNull } σ hend h

/-- One row that is not active. -/
def inactiveRow : Launch Unit where
  numInputRows := 1
  key _ := ()
  maskByte _ := false
  maskNull _ := false
  numColumns := 0
  detectedGridSize := 1
  detectedGridSize_pos := Nat.one_pos
  shmemSize := 0

/-- The mask of one row is read at row 127. -/
theorem accesses_inactiveRow : inactiveRow.Accesses .inOrder true 127 :=
  .inl ⟨0, by decide, .inl ⟨0, by decide, cardinality_of_constant _ _ rfl 0 0,
    .inl ⟨127, by decide, by decide, .inl rfl⟩⟩⟩

end Launch

end Gqe.HashGroupBy
