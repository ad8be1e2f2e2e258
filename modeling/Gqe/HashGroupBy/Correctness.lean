import Gqe.Aggregation.Correctness
import Gqe.HashGroupBy.Contributions
import Gqe.HashGroupBy.Measures

/-!
# Hash group-by aggregates every active row once

If the kernels return, each group has the aggregates of the active rows with its key, whatever the
order of the atomic operations. They return if there is room for a column in the shared memory of
each block that aggregates there.
-/

namespace Gqe.HashGroupBy

open Aggregation Scatter List Accumulator

variable {κ A : Type*} [DecidableEq κ]

namespace Launch

variable (L : Launch κ) (σ : Schedule)

/-- There is one group for each key of the given rows, and to each column of a group contribute the
rows with its key, each of them once. -/
structure AggregatesOnce (rows : List Nat) (result : List (Nat × List (Option (List Nat)))) :
    Prop where
  nodup_keys : (result.map fun group => L.key group.1).Nodup
  mem_keys : ∀ k, k ∈ result.map (fun group => L.key group.1) ↔ k ∈ rows.map L.key
  length_columns : ∀ group ∈ result, group.2.length = L.numColumns
  contributions : ∀ group ∈ result, ∀ column ∈ group.2, ∃ contributing, column = some contributing ∧
      contributing.Perm (rows.filter fun row => L.key row = L.key group.1)

variable {L σ} {turns : Nat}

variable {result : List (Nat × List (Option (List Nat)))}

/-- Rows that contribute to a result with columns are in any list of rows it aggregates. -/
lemma AggregatesOnce.mem_of_mem {rows rows' : List Nat} (h : L.AggregatesOnce rows result)
    (h' : L.AggregatesOnce rows' result) (hcols : L.numColumns ≠ 0) {row : Nat}
    (hrow : row ∈ rows) : row ∈ rows' := by
  obtain ⟨group, hgroup, hkey⟩ :=
    mem_map.1 ((h.mem_keys (L.key row)).2 (mem_map_of_mem hrow))
  obtain ⟨column, hcol⟩ : ∃ column, column ∈ group.2 := by
    refine exists_mem_of_length_pos ?_
    rw [h.length_columns group hgroup]
    exact Nat.pos_of_ne_zero hcols
  obtain ⟨contributing, rfl, hperm⟩ := h.contributions group hgroup column hcol
  obtain ⟨contributing', heq, hperm'⟩ := h'.contributions group hgroup _ hcol
  obtain rfl := Option.some.inj heq
  have hcontributes : row ∈ contributing :=
    hperm.mem_iff.2 (mem_filter.2 ⟨hrow, decide_eq_true hkey.symm⟩)
  exact (mem_filter.1 (hperm'.mem_iff.1 hcontributes)).1

/-! ### What the kernels return -/

variable {acc : Nat → Accumulator Nat A}

lemma exists_of_groupby {result : List (Nat × List (Option A))}
    (h : L.groupby σ acc turns = some result) :
    (∀ block < L.gridSize, (L.blockColumns σ turns block).isSome) ∧
      ∃ smallSet globalSet, L.globalSet σ = some smallSet ∧
        L.directSet σ smallSet = some globalSet := by
  obtain ⟨smallSet, hsm, h⟩ := Option.bind_eq_some_iff.1 h
  split at h
  · rename_i hcols
    obtain ⟨globalSet, hglob, -⟩ := Option.map_eq_some_iff.1 h
    refine ⟨fun block hblk => ?_, smallSet, globalSet, hsm, hglob⟩
    exact all_eq_true.1 hcols block (mem_range.2 hblk)
  · cases h

/-- Each column of a group has the aggregate of the rows that contribute to it. -/
lemma groupby_eq_some (hacc : ∀ col, (acc col).IsLawful)
    (hcols : ∀ block < L.gridSize, (L.blockColumns σ turns block).isSome)
    {smallSet globalSet : List Nat} (hsm : L.globalSet σ = some smallSet)
    (hglob : L.directSet σ smallSet = some globalSet) :
    L.groupby σ acc turns = some ((σ.retrieval globalSet).map fun out =>
      (out, (range L.numColumns).map fun col =>
        some ((acc col).fold (L.contributions σ turns col smallSet globalSet out)))) := by
  have hall : (range L.gridSize).all fun block => (L.blockColumns σ turns block).isSome :=
    all_eq_true.2 fun block hblk => hcols block (mem_range.1 hblk)
  rw [groupby, hsm, Option.bind_some, if_pos hall, hglob]
  refine congrArg some (map_congr_left fun out hout => ?_)
  refine Prod.ext rfl (map_congr_left fun col _ => ?_)
  exact table_apply (hacc col) hglob ((σ.retrieval_perm globalSet).mem_iff.1 hout)

/-- **The rows that contribute to the groups**, in any order of the atomic operations. -/
theorem once_of_groupby (h : L.groupby σ (fun _ => .record) turns = some result) :
    L.AggregatesOnce L.activeRows result := by
  obtain ⟨hcols, smallSet, globalSet, hsm, hglob⟩ := exists_of_groupby h
  rw [groupby_eq_some (fun _ => isLawful_record) hcols hsm hglob] at h
  obtain rfl := Option.some.inj h
  have hset := isGlobalSet_of_eq_some hsm hglob
  have hkeys := (σ.retrieval_perm globalSet).map L.key
  refine ⟨?_, fun k => ?_, fun group hgroup => ?_, fun group hgroup column hcolumn => ?_⟩
  · rw [map_map]
    exact hkeys.nodup_iff.2 hset.nodup_keys
  · rw [map_map, ← hset.mem_keys, ← hkeys.mem_iff]
    rfl
  · obtain ⟨out, -, rfl⟩ := mem_map.1 hgroup
    simp
  · obtain ⟨out, hout, rfl⟩ := mem_map.1 hgroup
    obtain ⟨col, hcol, rfl⟩ := mem_map.1 hcolumn
    refine ⟨_, rfl, ?_⟩
    rw [fold_record]
    exact hset.contributions_perm hcols (mem_range.1 hcol)
      ((σ.retrieval_perm globalSet).mem_iff.1 hout)

lemma columnsFit_of_groupby {result : List (Nat × List (Option A))}
    (h : L.groupby σ acc turns = some result) : L.ColumnsFit :=
  L.columnsFit_of_isSome σ (exists_of_groupby h).1

/-! ### Measures -/

variable {V : Type*} [LinearOrder V] [CommSemiring V]

def measureAccumulators (measures : List (AggregationKind × (Nat → Option V))) (col : Nat) :
    Accumulator Nat (Option V) :=
  let measure := measures.getD col (.countAll, fun _ => none)
  measureAccumulator measure.1 measure.2

def measureRow (R : Reductions V) (measures : List (AggregationKind × (Nat → Option V)))
    (rows : List Nat) : List (Option V) :=
  measures.map fun measure => R.reduce measure.1 (rows.map measure.2)

/-- The measures of the groups are those of the rows that contribute to them. -/
lemma groupby_measureAccumulators (R : Reductions V)
    {measures : List (AggregationKind × (Nat → Option V))} (hkinds : ∀ m ∈ measures, IsFirst m.1)
    (hmeas : L.numColumns = measures.length)
    (h : L.groupby σ (fun _ => .record) turns = some result) :
    L.groupby σ (measureAccumulators measures) turns = some (result.map fun group =>
      (group.1, (measureRow R measures
        (L.activeRows.filter fun row => L.key row = L.key group.1)).map some)) := by
  obtain ⟨hcols, smallSet, globalSet, hsm, hglob⟩ := exists_of_groupby h
  rw [groupby_eq_some (fun _ => isLawful_record) hcols hsm hglob] at h
  obtain rfl := Option.some.inj h
  have hset := isGlobalSet_of_eq_some hsm hglob
  have hacc : ∀ col, (measureAccumulators measures col).IsLawful := fun _ =>
    isLawful_measureAccumulator
  rw [groupby_eq_some hacc hcols hsm hglob, map_map]
  refine congrArg some (map_congr_left fun out hout => Prod.ext rfl ?_)
  have hout := (σ.retrieval_perm globalSet).mem_iff.1 hout
  refine ext_getElem (by simp [measureRow, hmeas]) fun col hcol hcol' => ?_
  have hcol : col < L.numColumns := by simpa using hcol
  have hmeasure : measureAccumulators measures col =
      measureAccumulator measures[col].1 measures[col].2 := by
    rw [measureAccumulators, getD_eq_getElem?_getD, getElem?_eq_getElem, Option.getD_some]
  have hperm := hset.contributions_perm hcols hcol hout
  have hkind := hkinds measures[col] (getElem_mem _)
  simp only [getElem_map, getElem_range, measureRow, Function.comp_apply]
  rw [hmeasure, fold_measureAccumulator R hkind, reduce_perm R hkind (hperm.map _)]

variable (L σ)

/-- The kernels return if there is room for a column and for all keys. -/
lemma exists_groupby (hfit : L.ColumnsFit)
    (hkeys : L.activeRows.map L.key ⊆ L.trueRows.map L.key) :
    ∃ turns result, L.groupby σ (fun _ => .record) turns = some result := by
  obtain ⟨smallSet, globalSet, hsm, hglob⟩ := exists_directSet σ hkeys
  exact ⟨L.numColumns, _, groupby_eq_some (fun _ => isLawful_record)
    (fun block hblk => L.isSome_of_columnsFit σ hfit hblk) hsm hglob⟩

/-- **Hash group-by aggregates every active row once**, as long as there is room for a column. -/
theorem groupby_aggregatesOnce_iff (R : Reductions V)
    {measures : List (AggregationKind × (Nat → Option V))} (hkinds : ∀ m ∈ measures, IsFirst m.1)
    (hmeasures : L.numColumns = measures.length)
    (hmask : ∀ row < L.numInputRows, L.maskNull row = false) :
    (∃ turns result, L.groupby σ (fun _ => .record) turns = some result ∧
      L.AggregatesOnce L.activeRows result ∧
      L.groupby σ (measureAccumulators measures) turns = some (result.map fun group =>
        (group.1, (measureRow R measures
          (L.activeRows.filter fun row => L.key row = L.key group.1)).map some))) ↔
      L.ColumnsFit := by
  constructor
  · rintro ⟨turns, result, hresult, -, -⟩
    exact columnsFit_of_groupby hresult
  · intro hfit
    have hrows : L.activeRows = L.trueRows :=
      filter_congr fun row hrow => by simp [hmask row (mem_range.1 hrow)]
    obtain ⟨turns, result, hresult⟩ := L.exists_groupby σ hfit (by rw [hrows]; simp)
    exact ⟨turns, result, hresult, once_of_groupby hresult,
      groupby_measureAccumulators R hkinds hmeasures hresult⟩

/-- The rows with a TRUE mask are all that contribute if the others do not show, which is when their
mask is FALSE, or else when there are no columns and their groups are there anyway. -/
lemma exists_aggregatesOnce_trueRows_iff :
    (∃ turns result, L.groupby σ (fun _ => .record) turns = some result ∧
      L.AggregatesOnce L.trueRows result) ↔
      L.ColumnsFit ∧ ∀ row < L.numInputRows, L.maskByte row → L.maskNull row →
        L.numColumns = 0 ∧ L.key row ∈ L.trueRows.map L.key := by
  constructor
  · rintro ⟨turns, result, hres, htrue⟩
    have hact := once_of_groupby hres
    refine ⟨columnsFit_of_groupby hres, fun row hrow hbyte hnull => ?_⟩
    have hmem : row ∈ L.activeRows := mem_filter.2 ⟨mem_range.2 hrow, hbyte⟩
    have hkey := (hact.mem_keys _).2 (mem_map_of_mem hmem)
    refine ⟨?_, (htrue.mem_keys _).1 hkey⟩
    by_contra hcols
    have htrueRow := (mem_filter.1 (hact.mem_of_mem htrue hcols hmem)).2
    rw [hnull] at htrueRow
    simp at htrueRow
  · rintro ⟨hfit, hnull⟩
    have hsub : L.activeRows.map L.key ⊆ L.trueRows.map L.key := by
      intro k hk
      obtain ⟨row, hrow, rfl⟩ := mem_map.1 hk
      obtain ⟨hrow, hbyte⟩ := mem_filter.1 hrow
      by_cases h : L.maskNull row
      · exact (hnull row (mem_range.1 hrow) hbyte h).2
      · exact mem_map_of_mem (mem_filter.2 ⟨hrow, by simp [hbyte, h]⟩)
    have hsub' : L.trueRows ⊆ L.activeRows := by
      intro row hrow
      obtain ⟨hrow, h⟩ := mem_filter.1 hrow
      exact mem_filter.2 ⟨hrow, (Bool.and_eq_true _ _ ▸ h).1⟩
    obtain ⟨turns, result, hres⟩ := L.exists_groupby σ hfit hsub
    have hact := once_of_groupby hres
    refine ⟨turns, result, hres, hact.nodup_keys, fun k => ?_, hact.length_columns,
      fun group hgroup column hcol => ?_⟩
    · rw [hact.mem_keys]
      exact ⟨fun hk => hsub hk, fun hk => map_subset _ hsub' hk⟩
    · obtain ⟨contributing, rfl, hperm⟩ := hact.contributions group hgroup column hcol
      refine ⟨contributing, rfl, ?_⟩
      have hcols : L.numColumns ≠ 0 := by
        rw [← hact.length_columns group hgroup]
        exact (length_pos_of_mem hcol).ne'
      have hrows : L.activeRows = L.trueRows := by
        refine filter_congr fun row hrow => ?_
        by_cases hbyte : L.maskByte row
        · have hvalid : ¬L.maskNull row := fun h =>
            hcols (hnull row (mem_range.1 hrow) hbyte h).1
          simp [hvalid]
        · simp [hbyte]
      rwa [hrows] at hperm

end Launch

/-- Three rows, the second of which is not active, with as many columns as given, on a device that
leaves 24 KiB of shared memory. -/
def threeRows (numColumns : Nat) : Launch Nat where
  numInputRows := 3
  key row := row / 2
  maskByte row := row ≠ 1
  maskNull _ := false
  numColumns
  detectedGridSize := 1
  detectedGridSize_pos := Nat.one_pos
  shmemSize := 24576

theorem groupby_aggregatesOnce_threeRows :
    ∃ turns result, (threeRows 1).groupby .inOrder (fun _ => .record) turns = some result ∧
      (threeRows 1).AggregatesOnce (threeRows 1).activeRows result ∧ (threeRows 1).groupby .inOrder
          (Launch.measureAccumulators [(.sum, fun row => some (row : Int))]) turns =
        some (result.map fun group =>
          (group.1, (Launch.measureRow .integers [(.sum, fun row => some (row : Int))]
            ((threeRows 1).activeRows.filter fun row =>
              (threeRows 1).key row = (threeRows 1).key group.1)).map some)) :=
  ((threeRows 1).groupby_aggregatesOnce_iff .inOrder .integers (by decide) rfl fun _ _ => rfl).2
    (by decide)

/-- The pointers to 1536 columns leave no shared memory for aggregates, and the kernels do not
return. -/
theorem not_exists_groupby_threeRows : ¬∃ turns result, (threeRows 1536).groupby .inOrder
      (Launch.measureAccumulators (replicate 1536 (.sum, fun row => some (row : Int)))) turns =
        some result := by
  rintro ⟨turns, result, h⟩
  have hfit : ¬(threeRows 1536).ColumnsFit := by decide
  exact hfit (Launch.columnsFit_of_groupby h)

end Gqe.HashGroupBy
