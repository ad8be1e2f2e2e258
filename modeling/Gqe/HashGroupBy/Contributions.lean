import Gqe.HashGroupBy.Columns

/-!
# The rows that contribute to a group

A row of a block with few keys reaches the sparse table through the shared memory of its block, a
row of another block directly, and in both ways the row of the table that stands for its key.
-/

namespace Gqe.HashGroupBy

open Scatter List KeyedSet

variable {κ A : Type*} [DecidableEq κ]

namespace Launch

variable (L : Launch κ) (σ : Schedule)

/-! ### The global set -/

def activeRows : List Nat := (range L.numInputRows).filter L.maskByte

/-- The rows with a TRUE mask, which are those that are counted. -/
def trueRows : List Nat :=
  (range L.numInputRows).filter fun row => L.maskByte row && !L.maskNull row

def smallRows : List Nat :=
  L.activeRows.filter fun row => L.blockCardinality σ (L.blockOf row) < cardinalityThreshold

variable {L σ} {turns block row out col : Nat} {smallSet globalSet : List Nat}

lemma mem_smallRows : row ∈ L.smallRows σ ↔ (row < L.numInputRows ∧ L.maskByte row) ∧
      L.blockCardinality σ (L.blockOf row) < cardinalityThreshold := by
  rw [smallRows, mem_filter, activeRows, mem_filter, mem_range, decide_eq_true_eq]

lemma slotRow_mem {block slot : Nat} (hslot : slot < L.blockCardinality σ block) :
    L.slotRow σ (block, slot) ∈ (L.mapping σ block).sharedSetIndices := by
  have hlen : slot < (L.mapping σ block).sharedSetIndices.length := hslot
  rw [slotRow, getD_eq_getElem?_getD, getElem?_eq_getElem hlen]
  exact getElem_mem _

/-- The keys in the slots of all blocks are those of the active rows of blocks with few keys. -/
lemma mem_keys_slots {k : κ} :
    k ∈ ((L.slots σ).map (L.slotRow σ)).map L.key ↔ k ∈ (L.smallRows σ).map L.key := by
  simp only [slots, smallRows, activeRows, mem_map, mem_flatMap, mem_filter,
    mem_range, decide_eq_true_eq]
  constructor
  · rintro ⟨_, ⟨_, ⟨block, ⟨hblk, hcard⟩, slot, hslot, rfl⟩, rfl⟩, rfl⟩
    have hmap := L.isMapping_of_lt σ hcard
    obtain ⟨hrow, hbyte⟩ :=
      hmap.mem_rows _ (hmap.indices_perm.mem_iff.1 (slotRow_mem hslot))
    obtain ⟨hrow, hof⟩ := (L.mem_blockRows_iff hblk).1 hrow
    exact ⟨_, ⟨⟨hrow, hbyte⟩, by rwa [hof]⟩, rfl⟩
  · rintro ⟨row, ⟨⟨hrow, hbyte⟩, hcard⟩, rfl⟩
    have hblk := L.blockOf_lt hrow
    obtain ⟨slot, other, -, hother, hkey⟩ := (L.isMapping_of_lt σ hcard).slot_of_active row
      ((L.mem_blockRows_iff hblk).2 ⟨hrow, rfl⟩) hbyte
    refine ⟨other, ⟨(L.blockOf row, slot), ⟨L.blockOf row, ⟨hblk, hcard⟩, slot,
      (List.getElem?_eq_some_iff.1 hother).1, rfl⟩, ?_⟩, hkey⟩
    rw [slotRow, getD_eq_getElem?_getD, hother, Option.getD_some]

lemma directRows_eq_nil (h : ¬L.directAggregations σ) : L.directRows σ = [] := by
  refine filter_eq_nil_iff.2 fun row hrow hdirect => h ?_
  rw [decide_eq_true_eq] at hdirect
  refine any_eq_true.2 ⟨L.blockOf row, ?_, decide_eq_true hdirect.2⟩
  exact mem_range.2 (L.blockOf_lt (mem_range.1 hrow))

lemma directRows_eq : L.directRows σ = L.activeRows.filter fun row =>
    !decide (L.blockCardinality σ (L.blockOf row) < cardinalityThreshold) := by
  rw [activeRows, filter_filter]
  refine filter_congr fun row _ => ?_
  rw [Bool.eq_iff_iff, decide_eq_true_eq, Bool.and_eq_true, Bool.not_eq_true',
    decide_eq_false_iff_not, Nat.not_lt, and_comm, blockOf]

variable (L σ) in
/-- The global set before and after the direct aggregations. -/
structure IsGlobalSet (smallSet globalSet : List Nat) : Prop where
  prefix_globalSet : smallSet <+: globalSet
  nodup_keys : (globalSet.map L.key).Nodup
  mem_keys_smallSet : ∀ k, k ∈ smallSet.map L.key ↔ k ∈ (L.smallRows σ).map L.key
  mem_keys : ∀ k, k ∈ globalSet.map L.key ↔ k ∈ L.activeRows.map L.key

lemma eq_insertAll_of_directSet (h : L.directSet σ smallSet = some globalSet) :
    globalSet = insertAll L.key smallSet (σ.directInserts (L.directRows σ)) := by
  unfold directSet at h
  split at h
  · exact insertAllWithin_eq_some h
  · rename_i hdirect
    have hnil : σ.directInserts (L.directRows σ) = [] := by
      rw [directRows_eq_nil hdirect]
      exact (σ.directInserts_perm []).eq_nil
    rw [hnil]
    exact (Option.some.inj h).symm

lemma isGlobalSet_insertAll
    (hsm : smallSet = insertAll L.key [] ((σ.globalInserts (L.slots σ)).map (L.slotRow σ)))
    (hglob : globalSet = insertAll L.key smallSet (σ.directInserts (L.directRows σ))) :
    L.IsGlobalSet σ smallSet globalSet := by
  have hnd : (smallSet.map L.key).Nodup := hsm ▸ nodup_insertAll_nil _
  have hkeys : ∀ k, k ∈ smallSet.map L.key ↔ k ∈ (L.smallRows σ).map L.key := by
    intro k
    rw [← mem_keys_slots, hsm, mem_keys_insertAll, (((σ.globalInserts_perm _).map _).map _).mem_iff]
    simp
  refine ⟨?_, ?_, hkeys, fun k => ?_⟩
  · rw [hglob]
    exact prefix_insertAll _ _
  · rw [hglob]
    exact nodup_insertAll hnd _
  · rw [hglob, mem_keys_insertAll, hkeys, ((σ.directInserts_perm _).map _).mem_iff]
    simp only [mem_map, directRows_eq, smallRows, mem_filter, Bool.not_eq_true',
      decide_eq_true_eq, decide_eq_false_iff_not]
    constructor
    · rintro (⟨row, ⟨hrow, -⟩, rfl⟩ | ⟨row, ⟨hrow, -⟩, rfl⟩)
      · exact ⟨row, hrow, rfl⟩
      · exact ⟨row, hrow, rfl⟩
    · rintro ⟨row, hrow, rfl⟩
      by_cases hcard : L.blockCardinality σ (L.blockOf row) < cardinalityThreshold
      · exact .inl ⟨row, ⟨hrow, hcard⟩, rfl⟩
      · exact .inr ⟨row, ⟨hrow, hcard⟩, rfl⟩

lemma isGlobalSet_of_eq_some (hsm : L.globalSet σ = some smallSet)
    (hglob : L.directSet σ smallSet = some globalSet) : L.IsGlobalSet σ smallSet globalSet :=
  isGlobalSet_insertAll (insertAllWithin_eq_some hsm) (eq_insertAll_of_directSet hglob)

/-- There is room in the global set if all keys of active rows are those of rows that
were counted. -/
lemma IsGlobalSet.length_le (h : L.IsGlobalSet σ smallSet globalSet)
    (hkeys : L.activeRows.map L.key ⊆ L.trueRows.map L.key) :
    globalSet.length ≤ L.globalSetCapacity := by
  have hsub : globalSet.map L.key ⊆ L.trueRows.map L.key := fun k hk =>
    hkeys ((h.mem_keys k).1 hk)
  have hle : globalSet.length ≤ L.trueRows.length := by
    simpa using (subperm_of_subset h.nodup_keys hsub).length_le
  rw [globalSetCapacity, numActiveKeys, countP_eq_length_filter, ← trueRows]
  omega

variable (σ) in
lemma exists_directSet (hkeys : L.activeRows.map L.key ⊆ L.trueRows.map L.key) :
    ∃ smallSet globalSet, L.globalSet σ = some smallSet ∧
      L.directSet σ smallSet = some globalSet := by
  have h := isGlobalSet_insertAll (L := L) (σ := σ) rfl rfl
  have hlen := h.length_le hkeys
  have hsm := insertAllWithin_of_length_le (h.prefix_globalSet.length_le.trans hlen)
  have hglob := insertAllWithin_of_length_le hlen
  by_cases hdirect : L.directAggregations σ
  · exact ⟨_, _, hsm, (if_pos hdirect).trans hglob⟩
  · exact ⟨_, _, hsm, if_neg hdirect⟩

/-! ### Locations -/

lemma location_of_active (hsm : L.IsSmall σ block) (hrow : row ∈ L.blockRows block)
    (hbyte : L.maskByte row) : ∃ location, L.location σ block row = some location ∧
      location < numAggLocations (L.blockCardinality σ block) ∧
      L.key (L.slotRow σ (block, location % L.blockCardinality σ block)) = L.key row := by
  obtain ⟨slot, other, hslot, hother, hkey⟩ :=
    (L.isMapping_of_lt σ hsm.2).slot_of_active row hrow hbyte
  have hlt : slot < L.blockCardinality σ block := (List.getElem?_eq_some_iff.1 hother).1
  refine ⟨_, ?_, aggLocation_lt (row % blockSize) hlt, ?_⟩
  · rw [location, hslot, Option.map_some]
  · rw [aggLocation_mod _ hlt, slotRow, getD_eq_getElem?_getD, hother, Option.getD_some, hkey]

lemma location_of_inactive (hsm : L.IsSmall σ block) (hrow : row ∈ L.blockRows block)
    (hbyte : ¬L.maskByte row) : L.location σ block row = none := by
  rw [location, (L.isMapping_of_lt σ hsm.2).slot_of_inactive row hrow (by simpa using hbyte),
    Option.map_none]

/-- The row of the sparse table for a location is the one for the key of its slot. -/
lemma IsGlobalSet.outIdx_eq_some_iff (h : L.IsGlobalSet σ smallSet globalSet) {out location : Nat}
    (hout : out ∈ globalSet) (hsm : L.IsSmall σ block) (hblk : block < L.gridSize) :
    L.outIdx σ smallSet (block, location) = some out ↔
      L.key (L.slotRow σ (block, location % L.blockCardinality σ block)) = L.key out := by
  have hslot : location % L.blockCardinality σ block < L.blockCardinality σ block :=
    Nat.mod_lt _ hsm.1
  have hmem : L.key (L.slotRow σ (block, location % L.blockCardinality σ block)) ∈
      smallSet.map L.key := by
    rw [h.mem_keys_smallSet, ← mem_keys_slots]
    refine mem_map_of_mem (mem_map_of_mem (mem_flatMap.2
      ⟨block, ?_, mem_map_of_mem (mem_range.2 hslot)⟩))
    exact mem_filter.2 ⟨mem_range.2 hblk, decide_eq_true hsm.2⟩
  obtain ⟨found, hfound⟩ := exists_find hmem
  obtain ⟨hfoundMem, hfoundKey⟩ := mem_of_find hfound
  rw [outIdx, globalMappingIndex, hfound, ← hfoundKey, Option.some.injEq]
  refine ⟨fun heq => heq ▸ rfl, fun hkey => ?_⟩
  exact inj_on_of_nodup_map h.nodup_keys (h.prefix_globalSet.subset hfoundMem) hout hkey

/-! ### The rows that contribute to a row of the sparse table -/

variable (L σ) in
/-- The rows that have reached a location of a block. -/
def rowsAt (col : Nat) (location : Nat × Nat) : List Nat :=
  sentTo (L.location σ location.1) location.2
    (σ.preAggregates location.1 col (L.blockRows location.1))

variable (L σ) in
/-- The rows that reach a row of the sparse table, in the order in which they are aggregated. -/
def contributions (turns col : Nat) (smallSet globalSet : List Nat) (out : Nat) : List Nat :=
  (sentTo (L.outIdx σ smallSet) out (σ.finalAggregates col (L.locations σ turns col))).flatMap
      (L.rowsAt σ col) ++
    sentTo (fun row => find L.key globalSet (L.key row)) out
      (σ.directAggregates col (L.directRows σ))

/-- The rows that reach a row of the sparse table through a block with few keys. -/
lemma IsGlobalSet.flatMap_rowsAt_perm (h : L.IsGlobalSet σ smallSet globalSet)
    (hout : out ∈ globalSet) (hsm : L.IsSmall σ block) (hblk : block < L.gridSize) (col : Nat) :
    ((sentTo (L.outIdx σ smallSet) out
        ((range (numAggLocations (L.blockCardinality σ block))).map fun location =>
          (block, location))).flatMap (L.rowsAt σ col)).Perm
      ((L.blockRows block).filter fun row => L.maskByte row ∧ L.key row = L.key out) := by
  have hnd : (sentTo (fun location => L.outIdx σ smallSet (block, location)) out
      (range (numAggLocations (L.blockCardinality σ block)))).Nodup :=
    nodup_range.filter _
  have hperm := (flatMap_sentTo_perm (L.location σ block) hnd
    (σ.preAggregates block col (L.blockRows block))).trans
      ((σ.preAggregates_perm block col (L.blockRows block)).filter _)
  rw [sentTo, filter_map, flatMap_map]
  refine hperm.trans (List.Perm.of_eq (filter_congr fun row hrow => ?_))
  rw [decide_eq_decide]
  simp only [sentTo, mem_filter, mem_range, decide_eq_true_eq, h.outIdx_eq_some_iff hout hsm hblk]
  constructor
  · rintro ⟨location, ⟨-, hkey⟩, hloc⟩
    by_cases hbyte : L.maskByte row
    · obtain ⟨location', hloc', -, hkey'⟩ := location_of_active hsm hrow hbyte
      obtain rfl := Option.some.inj (hloc.symm.trans hloc')
      exact ⟨hbyte, hkey'.symm.trans hkey⟩
    · rw [location_of_inactive hsm hrow hbyte] at hloc
      cases hloc
  · rintro ⟨hbyte, hkey⟩
    obtain ⟨location, hloc, hlt, hkey'⟩ := location_of_active hsm hrow hbyte
    exact ⟨location, ⟨hlt, hkey'.trans hkey⟩, hloc⟩

lemma not_maskByte_of_cardinality (hcard : L.blockCardinality σ block = 0)
    (hrow : row ∈ L.blockRows block) : ¬L.maskByte row := by
  intro hbyte
  have hlt : L.blockCardinality σ block < cardinalityThreshold := by
    rw [hcard]
    decide
  obtain ⟨slot, other, -, hother, -⟩ :=
    (L.isMapping_of_lt σ hlt).slot_of_active row hrow hbyte
  have hslot : slot < L.blockCardinality σ block := (List.getElem?_eq_some_iff.1 hother).1
  omega

lemma IsSmall.filter_blockColumns (hsm : L.IsSmall σ block)
    (hcols : (L.blockColumns σ turns block).isSome) (hcol : col < L.numColumns) :
    ((L.blockColumns σ turns block).getD []).filter (· = col) = [col] := by
  obtain ⟨columns, hcols⟩ := Option.isSome_iff_exists.1 hcols
  rw [hcols, Option.getD_some, hsm.eq_range_of_blockColumns hcols, filter_eq,
    count_eq_one_of_mem nodup_range (mem_range.2 hcol), replicate_one]

section

variable (h : L.IsGlobalSet σ smallSet globalSet)
  (hcols : ∀ block < L.gridSize, (L.blockColumns σ turns block).isSome) (hcol : col < L.numColumns)
  (hout : out ∈ globalSet)
include h hcols hcol hout

/-- The rows that reach a row of the sparse table through the shared memory of their blocks. -/
lemma IsGlobalSet.flatMap_locations_perm :
    ((sentTo (L.outIdx σ smallSet) out (L.locations σ turns col)).flatMap (L.rowsAt σ col)).Perm
      ((L.smallRows σ).filter fun row => L.key row = L.key out) := by
  let taken := (L.smallRows σ).filter fun row => L.key row = L.key out
  have hblks : ((sentTo (L.outIdx σ smallSet) out (L.locations σ turns col)).flatMap
      (L.rowsAt σ col)).Perm
        ((range L.gridSize).flatMap fun block => sentTo (some ∘ L.blockOf) block taken) := by
    rw [sentTo, locations, filter_flatMap, flatMap_assoc]
    refine List.Perm.flatMap_left _ fun block hblk => ?_
    rw [mem_range] at hblk
    by_cases hsm : L.IsSmall σ block
    · rw [hsm.filter_blockColumns (hcols block hblk) hcol, flatMap_singleton]
      refine (h.flatMap_rowsAt_perm hout hsm hblk col).trans ?_
      refine ((L.blockRows_perm hblk).filter _).trans (List.Perm.of_eq ?_)
      simp only [sentTo, taken, smallRows, activeRows, filter_filter]
      refine filter_congr fun row _ => ?_
      by_cases hof : L.blockOf row = block
      · simp [hof, hsm.2, Bool.and_comm]
      · simp [hof]
    · have hnil : sentTo (some ∘ L.blockOf) block taken = [] := by
        refine filter_eq_nil_iff.2 fun row hrow hof => ?_
        obtain ⟨⟨hlt, hbyte⟩, hcard⟩ := mem_smallRows.1 (mem_filter.1 hrow).1
        obtain rfl : L.blockOf row = block := by simpa using hof
        have hzero : L.blockCardinality σ (L.blockOf row) = 0 := by
          rw [IsSmall] at hsm
          omega
        exact not_maskByte_of_cardinality hzero
          ((L.mem_blockRows_iff hblk).2 ⟨hlt, rfl⟩) hbyte
      rw [blockColumns_of_not hsm, hnil]
      exact List.Perm.refl []
  refine hblks.trans ((flatMap_sentTo_perm _ nodup_range _).trans (List.Perm.of_eq ?_))
  refine filter_eq_self.2 fun row hrow => ?_
  have hlt : row < L.numInputRows := (mem_smallRows.1 (mem_filter.1 hrow).1).1.1
  exact decide_eq_true ⟨L.blockOf row, mem_range.2 (L.blockOf_lt hlt), rfl⟩

/-- **Every active row with the key contributes once.** -/
lemma IsGlobalSet.contributions_perm :
    (L.contributions σ turns col smallSet globalSet out).Perm
      (L.activeRows.filter fun row => L.key row = L.key out) := by
  have hdirect : sentTo (fun row => find L.key globalSet (L.key row)) out
      (L.directRows σ) = (L.directRows σ).filter fun row => L.key row = L.key out := by
    refine filter_congr fun row _ => ?_
    rw [decide_eq_decide, find_eq_some_iff h.nodup_keys, and_iff_right hout, eq_comm]
  calc L.contributions σ turns col smallSet globalSet out
      |>.Perm ((sentTo (L.outIdx σ smallSet) out (L.locations σ turns col)).flatMap
          (L.rowsAt σ col) ++
        sentTo (fun row => find L.key globalSet (L.key row)) out (L.directRows σ)) :=
        ((sentTo_perm _ _ (σ.finalAggregates_perm col _)).flatMap_right _).append
          (sentTo_perm _ _ (σ.directAggregates_perm col _))
    _ |>.Perm ((L.smallRows σ).filter (fun row => L.key row = L.key out) ++
        (L.directRows σ).filter fun row => L.key row = L.key out) := by
        rw [hdirect]
        exact (h.flatMap_locations_perm hcols hcol hout).append_right _
    _ |>.Perm (L.activeRows.filter fun row => L.key row = L.key out) := by
        rw [← filter_append, directRows_eq]
        exact (filter_append_perm _ _).filter _

end

/-! ### The values of the sparse table -/

lemma initialTable_of_mem (acc : Accumulator Nat A)
    (hglob : L.directSet σ smallSet = some globalSet) (hout : out ∈ globalSet) :
    L.initialTable σ acc smallSet out = some acc.identity := by
  unfold initialTable
  unfold directSet at hglob
  split_ifs at hglob ⊢ with hdirect hmem
  · rfl
  · rfl
  · exact absurd (Option.some.inj hglob ▸ hout) hmem

/-- A row of the sparse table has the aggregate of the rows that reach it. -/
lemma table_apply {acc : Accumulator Nat A} (hacc : acc.IsLawful) {out : Nat}
    (hglob : L.directSet σ smallSet = some globalSet) (hout : out ∈ globalSet) :
    L.directAggregates σ acc col globalSet
        (L.finalAggregates σ acc turns col smallSet (L.initialTable σ acc smallSet)) out =
      some (acc.fold (L.contributions σ turns col smallSet globalSet out)) := by
  have hfinal : L.finalAggregates σ acc turns col smallSet (L.initialTable σ acc smallSet) out =
      some (acc.fold ((sentTo (L.outIdx σ smallSet) out
        (σ.finalAggregates col (L.locations σ turns col))).flatMap (L.rowsAt σ col))) := by
    rw [finalAggregates, scatter_apply, initialTable_of_mem acc hglob hout, foldl_map_some]
    simp only [preAggregates, scatter_apply]
    exact congrArg some (hacc.foldl_merge (L.rowsAt σ col) _ [])
  have hdirect : ∀ table : Nat → Option A, L.directAggregates σ acc col globalSet table =
      scatter (fun row => find L.key globalSet (L.key row))
        (fun a row => a.map (acc.update · row))
          table (σ.directAggregates col (L.directRows σ)) := by
    intro table
    unfold directAggregates
    split
    · rfl
    · rename_i hdirect
      rw [directRows_eq_nil hdirect, (σ.directAggregates_perm col []).eq_nil]
      rfl
  rw [hdirect, scatter_apply, hfinal, foldl_map_some, contributions, Accumulator.fold,
    Accumulator.fold, foldl_append]

end Launch

end Gqe.HashGroupBy
