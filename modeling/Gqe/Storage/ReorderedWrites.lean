import Gqe.Storage.ReadWriteTasks
import Gqe.ZoneMap.Pruning

/-!
# Writes with reordered columns

`in_memory_write_task::execute_default`: the columns of the input are placed at the positions of the
table columns they are written to. The zone map is made of the input as it comes.
-/

namespace Gqe.Storage

open ZoneMap List Table

/-! ### Placing columns -/

section Place
variable {α : Type*} {default : α} {positions : List Nat} {xs : List α}

/-- The loop that assigns each value to its position. -/
def assignAll (ys : List α) : List Nat → List α → List α
  | [], _ | _ :: _, [] => ys
  | i :: positions, x :: xs => assignAll (ys.set i x) positions xs

/-- `new_columns` after the loop. -/
def place (default : α) (positions : List Nat) (xs : List α) : List α :=
  assignAll (replicate positions.length default) positions xs

lemma length_assignAll (ys : List α) (positions : List Nat) (xs : List α) :
    (assignAll ys positions xs).length = ys.length := by
  induction positions generalizing ys xs with
  | nil => rw [assignAll]
  | cons i positions ih =>
    cases xs with
    | nil => rw [assignAll]
    | cons x xs => rw [assignAll, ih, length_set]

@[simp] lemma length_place : (place default positions xs).length = positions.length := by
  rw [place, length_assignAll, length_replicate]

lemma getElem?_assignAll_of_notMem {ys : List α} {k : Nat} (hk : k ∉ positions) :
    (assignAll ys positions xs)[k]? = ys[k]? := by
  induction positions generalizing ys xs with
  | nil => rw [assignAll]
  | cons i positions ih =>
    rw [mem_cons, not_or] at hk
    cases xs with
    | nil => rw [assignAll]
    | cons x xs => rw [assignAll, ih hk.2, getElem?_set_ne (Ne.symm hk.1)]

lemma getElem?_assignAll {ys : List α} (hnd : positions.Nodup)
    (hlt : ∀ p ∈ positions, p < ys.length) {i k : Nat} (hi : positions[i]? = some k)
    (hx : i < xs.length) : (assignAll ys positions xs)[k]? = xs[i]? := by
  induction positions generalizing ys xs i with
  | nil => simp at hi
  | cons p positions ih =>
    obtain ⟨x, xs, rfl⟩ := exists_cons_of_length_pos (Nat.zero_lt_of_lt hx)
    rw [nodup_cons] at hnd
    cases i with
    | zero =>
      obtain rfl := Option.some.inj hi
      rw [assignAll, getElem?_assignAll_of_notMem hnd.1, getElem?_set_self (hlt p mem_cons_self)]
      rfl
    | succ i =>
      exact ih hnd.2 (fun q hq => by simpa using hlt q (mem_cons_of_mem p hq)) hi
        (by simpa using hx)

/-- In the order of the table, nothing is moved. -/
lemma place_range : place default (range xs.length) xs = xs := by
  refine ext_getElem? fun k => ?_
  by_cases hk : k < xs.length
  · exact getElem?_assignAll nodup_range (by simp) (by simp [hk]) hk
  · rw [getElem?_eq_none (by simpa using hk), getElem?_eq_none (by simpa using hk)]

end Place

/-! ### The task -/

section
variable {V : Type} [LinearOrder V]

structure RowGroup (V : Type) where
  table : Table V
  zoneMap : Option (ZoneMap V)

/-- The columns of the row group, by rows. -/
def placedTable (columnIndexes : List Nat) (input : Table V) : Table V :=
  .build (place .empty columnIndexes input.types) input.rows (place none columnIndexes) (by simp)

/-- `execute_default`. Whether columns are compressed makes no difference to their values. -/
def executeDefault (columnIndexes : List Nat) (dataTypes : List DataType) (partitionSize : Int)
    (compressed : Bool) (input : Table V) : Except String (RowGroup V) :=
  if dataTypes.length ≠ columnIndexes.length then
    .error "Data types must have the same length as the number of columns"
  else if input.numColumns ≠ columnIndexes.length ∨ dataTypes ≠ input.types then
    .error "Query result schema must match Parquet output schema"
  else if compressed ∧ partitionSize ≤ 0 then
    .error ("Compressed in-memory writes require zone_map_partition_size > 0 because " ++
      "compressed_sliced_column is the only supported compressed storage layout.")
  else if 0 < partitionSize then do
    let zoneMap ← ofTable input partitionSize.toNat
    return ⟨placedTable columnIndexes input, some zoneMap⟩
  else .ok ⟨placedTable columnIndexes input, none⟩

variable (C : Cudf V) (slice : Int → Int → V → V)

/-- The zone map holds the statistics of the columns of the row group, and no partition with a row
on which a comparison of a column with a literal is TRUE is pruned. -/
def KeepsComparisons (partitionSize : Nat) (g : RowGroup V) : Prop :=
  ∃ zm, g.zoneMap = some zm ∧ zm.zoneMap = computeZoneMap g.table partitionSize ∧
    ∀ op side i t v null raw, let e := columnComparison op side i (.literal t v null)
      IsFilter g.table.numColumns e → transform e = .ok none ∨
      ∃ z ps, transform e = .ok (some z) ∧ zm.evaluate C slice raw z = some ps ∧
        ∀ p ∈ ps, (∃ r ∈ segment g.table.rows p.start p.stop, e.IsTrue C g.table.typeOf r) →
          p.pruned = false

variable {C slice} {columnIndexes : List Nat} {input : Table V} {partitionSize : Nat}

lemma executeDefault_eq_ok (hlen : input.numColumns = columnIndexes.length)
    (hpos : 0 < partitionSize) (compressed : Bool) {zm : ZoneMap V}
    (hzm : ofTable input partitionSize = .ok zm) :
    executeDefault columnIndexes input.types partitionSize compressed input =
      .ok ⟨placedTable columnIndexes input, some zm⟩ := by
  have hint : (0 : Int) < partitionSize := Int.natCast_pos.2 hpos
  have hlen' : input.types.length = columnIndexes.length := hlen
  rw [executeDefault, if_neg (not_not.2 hlen'), if_neg (by simp [hlen]),
    if_neg fun h => absurd h.2 (not_le.2 hint), if_pos hint, Int.toNat_natCast, hzm]
  rfl

lemma placedTable_range : placedTable (range input.numColumns) input = input := by
  refine Table.ext place_range ?_
  simp only [placedTable, Table.build, Table.numColumns, place_range]
  split_ifs with h
  · exact (input.rows_of_no_columns h).symm
  · refine (map_congr_left fun r hr => ?_).trans (map_id _)
    rw [← input.length_row r hr, place_range, id]

lemma keepsComparisons_of_range (ht : IsNullFree input) (hpos : 0 < partitionSize) {zm : ZoneMap V}
    (hzm : ofTable input partitionSize = .ok zm) :
    KeepsComparisons C slice partitionSize ⟨input, some zm⟩ := by
  refine ⟨zm, rfl, (ofTable_eq_ok hzm).2.2, fun op side i t v null raw hf => ?_⟩
  have hwhole : NegatedAndsWhole false (columnComparison op side i (.literal t v null)) := by
    cases side <;> exact ⟨by simp, trivial, trivial⟩
  refine (keepsMatches_of_negatedAndsWhole C slice ht hf hwhole hpos raw).imp_right ?_
  rintro ⟨zm', z, ps, hzm', hz, hps, -, hkeeps⟩
  obtain rfl : zm = zm' := by simpa [hzm] using hzm'
  exact ⟨z, ps, hz, hps, hkeeps⟩

omit C slice in
lemma getElem?_computeZoneMap_of_row {t : Table V} {r : Row V} (ht : t.rows = [r]) {k : Nat}
    (hk : k < t.numColumns) : (computeZoneMap t 1)[2 * k]? = some [r.col k] := by
  have hoffs : segmentOffsets 1 1 = [0, 1] := rfl
  rw [(getElem?_computeZoneMap t 1 hk).1, Table.column, Table.numRows, ht, length_singleton, hoffs]
  cases h : r.col k <;> simp [segmentedReduce, ZoneMap.segment, h]

/-- The statistics of the input are those of the row group only if no column is moved: otherwise,
let a column that is moved have another value than all others. -/
lemma eq_of_computeZoneMap_eq {i k : Nat} (hnd : columnIndexes.Nodup)
    (hlt : ∀ p ∈ columnIndexes, p < columnIndexes.length) (hik : columnIndexes[i]? = some k)
    {types : List DataType} (htys : types.length = columnIndexes.length) {a b : V} (hab : a ≠ b)
    (h : ∀ input : Table V, input.types = types → IsNullFree input →
      computeZoneMap input 1 = computeZoneMap (placedTable columnIndexes input) 1) : i = k := by
  have hi : i < columnIndexes.length := (List.getElem?_eq_some_iff.1 hik).1
  have hk : k < columnIndexes.length := hlt k (mem_of_getElem? hik)
  have hne : types ≠ [] := ne_nil_of_length_pos (htys ▸ Nat.zero_lt_of_lt hi)
  let row : Row V := (List.range columnIndexes.length).map fun j => some (if j = i then b else a)
  have hrow : row.length = types.length := by simp [row, htys]
  have hcol : ∀ j < columnIndexes.length, row[j]? = some (some (if j = i then b else a)) :=
    fun j hj => by simp [row, hj]
  let input : Table V := ⟨types, [row], by simpa using hrow, fun h => absurd h hne⟩
  have hplaced : place DataType.empty columnIndexes types ≠ [] :=
    ne_nil_of_length_pos (by rw [length_place]; exact Nat.zero_lt_of_lt hi)
  have hstats := congrArg (·[2 * k]?) (h input rfl (by simp [input, row]))
  have hmoved : (place none columnIndexes row)[k]? = row[i]? :=
    getElem?_assignAll hnd (by simpa using hlt) hik (by simpa [hrow, htys] using hi)
  rw [getElem?_computeZoneMap_of_row rfl (by simpa [numColumns, input, htys] using hk),
    getElem?_computeZoneMap_of_row (if_neg hplaced) (by simpa [numColumns, placedTable] using hk),
    Row.col, Row.col, getD_eq_getElem?_getD, getD_eq_getElem?_getD, hmoved, hcol k hk,
    hcol i hi] at hstats
  by_contra hne
  simp [Ne.symm hne, hab] at hstats

/-- The zone maps of row groups describe the columns they are stored with, and prune no partition
with a matching row, for every input if and only if the columns are written in the order of the
table. -/
theorem executeDefault_keepsComparisons_iff (C : Cudf V) (slice : Int → Int → V → V)
    (table : InMemoryTable V) (hnodup : table.columnNames.Nodup) (columnNames : List String)
    (hperm : columnNames.Perm table.columnNames) :
    (∀ (input : Table V) (partitionSize : Nat) (compressed : Bool), IsNullFree input →
      input.types = columnNames.map table.columnType → 0 < partitionSize →
      ∃ columnIndexes g, columnNames.mapM table.getColumnIndex = .ok columnIndexes ∧
        executeDefault columnIndexes (columnNames.map table.columnType) partitionSize compressed
          input = .ok g ∧ KeepsComparisons C slice partitionSize g) ↔
    columnNames = table.columnNames := by
  have hindexes := mapM_getColumnIndex fun n hn => hperm.subset hn
  constructor
  · intro h
    have hmoved : ∀ i k : Nat, (columnNames.map table.columnNames.idxOf)[i]? = some k → i = k := by
      intro i k hik
      have hinjective : (columnNames.map table.columnNames.idxOf).Nodup :=
        (hperm.nodup_iff.2 hnodup).map_on fun n hn m _ => (idxOf_inj (hperm.subset hn)).1
      have hlt : ∀ p ∈ columnNames.map table.columnNames.idxOf,
          p < (columnNames.map table.columnNames.idxOf).length := by
        simpa [hperm.length_eq] using fun n hn => idxOf_lt_length_of_mem (hperm.subset hn)
      refine eq_of_computeZoneMap_eq hinjective hlt hik
        (length_map table.columnType |>.trans (length_map _).symm)
        (C.ofBool_injective.ne Bool.false_ne_true) fun input htypes hnull => ?_
      obtain ⟨zm, hzm⟩ := ofTable_ok input one_pos
      obtain ⟨_, g, hok, hg, zm', hzm', hdescribes, -⟩ := h input 1 false hnull htypes one_pos
      obtain rfl := Except.ok.inj (hindexes.symm.trans hok)
      rw [← htypes, executeDefault_eq_ok (by simp [numColumns, htypes]) one_pos false hzm] at hg
      obtain rfl := Except.ok.inj hg
      rw [← (ofTable_eq_ok hzm).2.2, Option.some_inj.1 hzm', hdescribes]
    refine ext_getElem hperm.length_eq fun i hi hi' => ?_
    have hidx : table.columnNames.idxOf columnNames[i] = i := (hmoved i _ (by simp [hi])).symm
    have hget := getElem_idxOf
      (idxOf_lt_length_of_mem (hperm.subset (getElem_mem hi)))
    simpa only [hidx] using hget.symm
  · rintro rfl input partitionSize compressed hnull htypes hpos
    have hrange : table.columnNames.map table.columnNames.idxOf = range input.numColumns :=
      ext_getElem (by simp [numColumns, htypes]) fun i _ _ => by
        simp [hnodup.idxOf_getElem]
    obtain ⟨zm, hzm⟩ := ofTable_ok input hpos
    refine ⟨_, _, hindexes, ?_, keepsComparisons_of_range hnull hpos hzm⟩
    rw [← htypes, hrange, executeDefault_eq_ok (by simp) hpos compressed hzm, placedTable_range]

def twoColumns : InMemoryTable Int where
  columnNames := ["a", "b"]
  columnTypes := [.int32, .int32]
  rowGroups := []
  length_columnTypes := rfl
  types_rowGroup := by simp
  length_rowGroups := by decide

theorem executeDefault_inOrder_keeps :
    ∃ columnIndexes g, ["a", "b"].mapM twoColumns.getColumnIndex = .ok columnIndexes ∧
      executeDefault columnIndexes [.int32, .int32] (1 : Nat) false oneRow = .ok g ∧
      KeepsComparisons .integers (fun _ _ v => v) 1 g :=
  (executeDefault_keepsComparisons_iff .integers (fun _ _ v => v) twoColumns (by decide) ["a", "b"]
    (.refl _)).2 rfl oneRow 1 false (by simp [oneRow]) rfl one_pos

/-- `INSERT INTO t (b, a) VALUES (1, 3)`: the partition with the row is pruned by `b = 1`. -/
theorem executeDefault_reordered_loses_row :
    ∃ g zm, executeDefault [1, 0] [.int32, .int32] 1 false oneRow = .ok g ∧
      g.table.rows = [[some 3, some 1]] ∧ g.zoneMap = some zm ∧
      (columnComparison .equal .lhs 1 (.literal .int32 1 false)).IsTrue .integers g.table.typeOf
        [some 3, some 1] ∧
      ∃ z ps, transform (columnComparison .equal .lhs 1 (.literal .int32 1 false)) = .ok (some z) ∧
        zm.evaluate .integers (fun _ _ v => v) (fun _ => false) z = some ps ∧
        ps.map (·.pruned) = [true] :=
  ⟨_, _, rfl, rfl, rfl, rfl, _, _, rfl, rfl, rfl⟩

end

end Gqe.Storage
