import Gqe.Join.Partitioning
import Gqe.Join.Shuffle

/-!
# Shuffle joins of partitioned inputs

Rows that match are in the same hash partition, so the rows that the tasks of a shuffle join produce
are those of the join of the whole inputs. The exception is the one of broadcast joins: a hash
partition without rows on the right, with a computed key that has no type where it is looked up.
-/

namespace Gqe.Join

open Fallible Slices List ListJoin Expr

variable {V : Type}

/-! ### Hash partitions -/

/-- What a partition task leaves behind for an input. -/
structure PartitionResult.IsFor (partition : Row V → Nat) (n : Nat) (input : Table V)
    (p : PartitionResult V) : Prop where
  types : p.result.types = input.types
  parts : ∃ parts : List (List (Row V)), parts.length = n ∧ p.result.rows = parts.flatten ∧
    p.partitionOffsets = starts parts ++ [parts.flatten.length] ∧ ∀ k (hk : k < parts.length),
      parts[k].Perm (input.rows.filter (partition · = k))

section Tasks

variable {partition : Row V → Nat} {n k : Nat} {input : Table V}

/-- The partitions have all rows of the input. -/
lemma flatten_parts_perm {parts : List (List (Row V))} (hlen : parts.length = n)
    (hlt : ∀ r ∈ input.rows, partition r < n)
    (hparts : ∀ k (hk : k < parts.length), parts[k].Perm (input.rows.filter (partition · = k))) :
    parts.flatten.Perm input.rows := by
  rw [← map_getD_range parts [], hlen]
  refine .trans (List.Perm.flatMap_left _ fun k hk => ?_) (flatMap_filter_perm partition hlt)
  have hk : k < parts.length := hlen ▸ mem_range.1 hk
  rw [getD_eq_getElem _ _ hk]
  exact hparts k hk

lemma partitionTask_eq_ok {H : HashPartitioning V} (hn : 0 < n) {columns : List Nat}
    (hcols : columns ≠ []) (hlt : ∀ c ∈ columns, c < input.numColumns) :
    ∃ p, partitionTask H (columns.map .columnReference) n input = .ok p ∧
      p.IsFor (H.rowPartition n input.types columns) n input := by
  have hhash : (columns.map columnReference).mapM (columnToHash (V := V)) = .ok columns := by
    rw [mapM_eq_ok_iff, forall₂_map_left_iff, forall₂_same]
    intro c _
    rfl
  have hbds : ¬ ∃ c ∈ columns, input.numColumns ≤ c := by
    rintro ⟨c, hc, hle⟩
    exact absurd (hlt c hc) (not_lt.2 hle)
  obtain ⟨htys, parts, hlen, hrows, hstarts, hparts⟩ := H.isPartitioned input columns hn
  have hperm := flatten_parts_perm hlen (fun r _ => H.partitionOf_lt _ _ hn) hparts
  obtain ⟨c, rest, rfl⟩ := exists_cons_of_ne_nil hcols
  refine ⟨⟨_, starts parts ++ [input.numRows]⟩, ?_, htys, parts, hlen, hrows, ?_, hparts⟩
  · rw [map_cons] at hhash ⊢
    simp only [partitionTask, hhash, hbds, ok_bind, if_false, hstarts]
  · rw [hperm.length_eq]
    rfl

/-- A merge task finds the rows of its partition between the offsets. -/
lemma partitionSlice_eq_ok {p : PartitionResult V} (hp : p.IsFor partition n input) (hk : k < n) :
    ∃ t, partitionSlice k p = .ok t ∧ t.types = input.types ∧
      t.rows.Perm (input.rows.filter (partition · = k)) := by
  obtain ⟨htys, parts, hlen, hrows, hoffs, hparts⟩ := hp
  have hk : k < parts.length := hlen ▸ hk
  have hstart : partitionOffset p.partitionOffsets k = .ok (start parts k) := by
    rw [partitionOffset, hoffs, getElem?_starts_concat hk.le]
  have hend : partitionOffset p.partitionOffsets (k + 1) = .ok (start parts (k + 1)) := by
    rw [partitionOffset, hoffs, getElem?_starts_concat hk]
  have hrange : start parts (k + 1) ≤ p.result.numRows := by
    rw [Table.numRows, hrows]
    exact start_le_length
  have hle : start parts k ≤ start parts (k + 1) := start_le_start_succ
  simp only [partitionSlice, hstart, hend, ok_bind, sliceTable, if_neg (not_lt.2 hle),
    if_neg (not_lt.2 hrange)]
  refine ⟨_, rfl, htys, ?_⟩
  change (slice p.result.rows _ _).Perm _
  rw [hrows, slice_flatten hk]
  exact hparts k hk

lemma concatenate_eq_ok {tables : List (Table V)} (hne : tables ≠ []) {types : List DataType}
    (htys : ∀ t ∈ tables, t.types = types) : ∃ t, concatenateTables tables = .ok t ∧
      t.types = types ∧ t.rows = tables.flatMap (·.rows) := by
  obtain ⟨t, rest, rfl⟩ := exists_cons_of_ne_nil hne
  have ht : t.types = types := htys t mem_cons_self
  have hall : ∀ s ∈ t :: rest, s.types = t.types := fun s hs => (htys s hs).trans ht.symm
  rw [concatenateTables, dif_pos hall]
  exact ⟨_, rfl, ht, rfl⟩

lemma mergeTask_eq_ok {input : Partitions V} {tasks : List (PartitionResult V)}
    (htasks : List.Forall₂ (fun t p => PartitionResult.IsFor partition n t p) input.parts tasks)
    (hk : k < n) : ∃ t, partitionMergeTask tasks k = .ok t ∧ t.types = input.types ∧
      t.rows.Perm (input.whole.rows.filter (partition · = k)) := by
  obtain ⟨slices, hslices, hall⟩ := mapM_forall₂ htasks fun _ _ hp => partitionSlice_eq_ok hp hk
  have hne : slices ≠ [] := by
    rw [← length_pos_iff, ← hall.length_eq]
    exact length_pos_iff.2 input.nonempty
  have htys : ∀ t ∈ slices, t.types = input.types := by
    intro t ht
    obtain ⟨i, hi, rfl⟩ := getElem_of_mem ht
    have hi' : i < input.parts.length := hall.length_eq ▸ hi
    exact (hall.get hi' hi).1.trans (input.types_eq _ (get_mem ..))
  obtain ⟨t, ht, htys, hrows⟩ := concatenate_eq_ok hne htys
  refine ⟨t, ?_, htys, ?_⟩
  · simp [partitionMergeTask, hslices, ht]
  · have hfilt : input.whole.rows.filter (partition · = k) =
        input.parts.flatMap fun part => part.rows.filter (partition · = k) := by
      rw [← filter_flatMap]
      rfl
    rw [hrows, hfilt]
    exact flatMap_rows_perm (hall.imp fun _ _ h => h.2)

end Tasks

/-! ### Rows that match -/

section Rows

variable {joinType : JoinType} (m : Row V → Row V → Bool) (n k : Nat)

section

variable (hfull : joinType ≠ .full)
include hfull

section

variable (hsingle : joinType ≠ .single)
include hsingle

lemma joinRowsBy_perm {ls ls' rs rs' : List (Row V)} (hls : ls.Perm ls') (hrs : rs.Perm rs') :
    (joinRowsBy m n k joinType ls rs).Perm (joinRowsBy m n k joinType ls' rs') := by
  cases joinType with
  | inner => exact (inner_perm m hls hrs).map _
  | left => exact (leftOuter_perm m hls hrs).map _
  | leftSemi => exact semi_perm m hls hrs
  | leftAnti => exact anti_perm m hls hrs
  | full => exact absurd rfl hfull
  | single => exact absurd rfl hsingle

/-- A row is joined with the rows that may match it. -/
lemma joinRowsBy_filter_right {l : Row V} {rs : List (Row V)} {p : Row V → Bool}
    (h : ∀ r ∈ rs, m l r → p r) :
    joinRowsBy m n k joinType [l] (rs.filter p) = joinRowsBy m n k joinType [l] rs := by
  cases joinType with
  | inner =>
    simp only [joinRowsBy, ListJoin.inner, flatMap_cons, flatMap_nil, filter_partners h]
  | left =>
    simp only [joinRowsBy, leftOuter, flatMap_cons, flatMap_nil, filter_partners h, any_partners h]
  | leftSemi =>
    simp only [joinRowsBy, semi, filter_cons, filter_nil, any_partners h]
  | leftAnti =>
    simp only [joinRowsBy, anti, filter_cons, filter_nil, any_partners h]
  | full => exact absurd rfl hfull
  | single => exact absurd rfl hsingle

/-- If rows that match are in the same bucket, the inputs can be joined bucket by bucket. -/
lemma flatMap_joinRowsBy_perm {ls rs : List (Row V)} {f g : Row V → Nat} {buckets : Nat}
    (hf : ∀ l ∈ ls, f l < buckets) (hm : ∀ l ∈ ls, ∀ r ∈ rs, m l r → f l = g r) :
    ((range buckets).flatMap fun b =>
      joinRowsBy m n k joinType (ls.filter (f · = b)) (rs.filter (g · = b))).Perm
      (joinRowsBy m n k joinType ls rs) := by
  have hrows : ∀ ls' rs', joinRowsBy m n k joinType ls' rs' =
      ls'.flatMap fun l => joinRowsBy m n k joinType [l] rs' := by
    intro ls' rs'
    rw [← joinRowsBy_flatMap_left m n k hfull, flatMap_singleton']
  rw [hrows ls rs]
  refine .trans (.of_eq ?_) (flatMap_flatMap_filter_perm f hf _)
  apply flatMap_congr
  intro b _
  rw [hrows]
  apply flatMap_congr
  intro l hl
  obtain ⟨hl, hb⟩ := mem_filter.1 hl
  rw [joinRowsBy_filter_right m n k hfull hsingle]
  intro r hr hlr
  rw [decide_eq_true_eq, ← hm l hl r hr hlr]
  exact of_decide_eq_true hb

end

end

end Rows

/-! ### Shuffle joins -/

/-- The relation is one of a kind that the engine shuffles, its condition and projection fit
its inputs, and the condition equates the shuffle columns of the two sides, which have the
same types. -/
structure ShuffleJoin.IsSupported (left right : Partitions V) (keys : JoinKeys V)
    (leftColumns rightColumns : List Nat) (relation : ShuffleJoin V) : Prop where
  parse : parseJoinCondition {} relation.condition = .ok keys
  joinType : relation.joinType = .inner ∨ relation.joinType = .left ∨
    relation.joinType = .leftSemi ∨ relation.joinType = .leftAnti
  perfectHashing : relation.joinType = .inner → relation.perfectHashing = false
  projection : ∀ c ∈ relation.projectionIndices,
    c < (joinTypes relation.joinType left.whole right.whole).length
  leftShuffleCols : relation.leftShuffleCols = leftColumns.map .columnReference
  rightShuffleCols : relation.rightShuffleCols = rightColumns.map .columnReference
  nonempty : leftColumns ≠ []
  equated : List.Forall₂ (fun c d =>
    (columnReference c, columnReference (left.types.length + d)) ∈
      keys.leftKeyExprs.zip keys.rightKeyExprs) leftColumns rightColumns
  types : leftColumns.map (left.types.getD · .empty) = rightColumns.map (right.types.getD · .empty)
  keys : keys.IsSupported left.types right.types

section Relation

variable {relation : ShuffleJoin V} {left right : Partitions V} {keys : JoinKeys V}
  {leftColumns rightColumns : List Nat} {H : HashPartitioning V} {n : Nat}

namespace ShuffleJoin.IsSupported

variable (h : relation.IsSupported left right keys leftColumns rightColumns)

include h in
lemma ne_full : relation.joinType ≠ .full := by
  rcases h.joinType with h | h | h | h <;> simp [h]

include h in
lemma ne_single : relation.joinType ≠ .single := by
  rcases h.joinType with h | h | h | h <;> simp [h]

include h in
lemma joinTask : relation.joinTask.IsSupported left.types right.types keys where
  parse := h.parse
  keys := h.keys
  ne_full := h.ne_full
  ne_single := h.ne_single
  perfectHashing hinner _ := h.perfectHashing hinner
  buildLeft := nofun

include h in
lemma left_lt : ∀ c ∈ leftColumns, c < left.types.length := by
  refine ((forall₂_and_left leftColumns rightColumns).1
    (h.equated.imp fun c d hmem => ⟨?_, hmem⟩)).1
  have hc := h.keys.left _ (of_mem_zip hmem).1 c (by simp)
  omega

include h in
lemma right_lt : ∀ d ∈ rightColumns, d < right.types.length := by
  have hflip : List.Forall₂ (flip fun c d =>
      (columnReference c, columnReference (left.types.length + d)) ∈
        keys.leftKeyExprs.zip keys.rightKeyExprs) rightColumns leftColumns := .flip h.equated
  refine ((forall₂_and_left rightColumns leftColumns).1
    (hflip.imp fun d c hmem => ⟨?_, hmem⟩)).1
  have hd := h.keys.right _ (of_mem_zip hmem).2 (left.types.length + d) (by simp)
  omega

variable [LinearOrder V] {J : CudfJoins V}

include h in
/-- Rows that match have the same values in the shuffle columns. -/
lemma select_eq {l r : Row V} (hholds : keys.holds J left.types right.types l r) :
    l.select leftColumns = r.select rightColumns := by
  rw [JoinKeys.holds, Bool.and_eq_true] at hholds
  have hkeys := hholds.1
  have hcell : ∀ c d, (columnReference c, columnReference (left.types.length + d)) ∈
      keys.leftKeyExprs.zip keys.rightKeyExprs → l.col c = r.col d := by
    intro c d hmem
    have hsome : keys.compareNulls ≠ none := by
      intro hnone
      have hnil := (isConsistent_of_parse h.parse
        JoinKeys.isConsistent_empty).1.compareNulls.1 hnone
      simp [hnil] at hmem
    obtain ⟨compareNulls, hcmp⟩ := Option.ne_none_iff_exists'.1 hsome
    rw [JoinKeys.keysHold, hcmp] at hkeys
    simp only [keysEqual, keyOf, zip_map, all_map, all_eq_true] at hkeys
    have hcells := hkeys _ hmem
    simp only [Function.comp_apply, Prod.map_apply, rename, eval, Nat.add_sub_cancel_left] at hcells
    cases compareNulls with
    | equal => simpa [cellsEqual] using hcells
    | unequal =>
      rw [cellsEqual, Bool.and_eq_true] at hcells
      exact of_decide_eq_true hcells.2
  rw [Row.select, Row.select, ← forall₂_eq_eq_eq, forall₂_map_left_iff, forall₂_map_right_iff]
  exact h.equated.imp hcell

end ShuffleJoin.IsSupported

variable [LinearOrder V] {J : CudfJoins V}

def partitionJoin (J : CudfJoins V) (H : HashPartitioning V) (n : Nat) (relation : ShuffleJoin V)
    (keys : JoinKeys V) (leftColumns rightColumns : List Nat)
    (left right : Partitions V) (k : Nat) : Table V :=
  .materialize (fun i => (joinTypes relation.joinType left.whole right.whole).getD i .empty)
    (joinRowsBy (keys.holds J left.types right.types) left.types.length right.types.length
      relation.joinType (left.whole.rows.filter (H.rowPartition n left.types leftColumns · = k))
      (right.whole.rows.filter (H.rowPartition n right.types rightColumns · = k)))
    relation.projectionIndices

/-- The join of the whole inputs is done hash partition by hash partition. -/
lemma flatMap_partitionJoin_perm (h : relation.IsSupported left right keys leftColumns rightColumns)
    (hn : 0 < n) : ((range n).flatMap fun k =>
      (partitionJoin J H n relation keys leftColumns rightColumns left right k).rows).Perm
      (joinBy J keys relation.joinType relation.projectionIndices left.whole right.whole).rows := by
  simp only [partitionJoin]
  rw [← rows_materialize_flat fun i =>
    (joinTypes relation.joinType left.whole right.whole).getD i .empty]
  refine rows_materialize_perm _ _ ?_ _
  exact flatMap_joinRowsBy_perm _ _ _ h.ne_full h.ne_single
    (fun l _ => H.partitionOf_lt _ _ hn) fun l _ r _ hholds => by
      rw [HashPartitioning.rowPartition, HashPartitioning.rowPartition, h.types, h.select_eq hholds]

omit [LinearOrder V] in
lemma mapM_partition_eq_ok (hn : 0 < n) {input : Partitions V} {columns : List Nat}
    (hcols : columns ≠ []) (hlt : ∀ c ∈ columns, c < input.types.length) :
    ∃ tasks, input.parts.mapM (partitionTask H (columns.map .columnReference) n) = .ok tasks ∧
      List.Forall₂ (fun t p => PartitionResult.IsFor (H.rowPartition n input.types columns) n t p)
        input.parts tasks := by
  apply exists_mapM_eq_ok
  intro t ht
  have htys : t.types = input.types := input.types_eq t ht
  rw [← htys] at hlt ⊢
  exact partitionTask_eq_ok hn hcols hlt

/-- The hash partition of an input. -/
def hashPartition (H : HashPartitioning V) (n : Nat) (columns : List Nat) (input : Partitions V)
    (k : Nat) : Table V where
  types := input.types
  rows := input.whole.rows.filter (H.rowPartition n input.types columns · = k)
  length_row r hr := input.whole.length_row r (mem_of_mem_filter hr)
  rows_of_no_columns h := by
    rw [input.whole.rows_of_no_columns h]
    rfl

/-- Whether keys can be evaluated depends on the types of a table, and on whether it has rows. -/
lemma evaluate_congr {C : Cudf V} {t t' : Table V} (htypes : t.types = t'.types)
    (hrows : t.rows.Perm t'.rows) (offset : Nat) (e : Expr V) :
    evaluateExpression C t offset e = evaluateExpression C t' offset e := by
  obtain ⟨types, rows, _, _⟩ := t
  obtain ⟨types', rows', _, _⟩ := t'
  obtain rfl : types = types' := htypes
  have hnil : rows = [] ↔ rows' = [] := by
    rw [← length_eq_zero_iff, hrows.length_eq, length_eq_zero_iff]
  cases e with
  | columnReference => rfl
  | _ => simp only [evaluateExpression, hnil]

lemma areEvaluated_congr {C : Cudf V} {l l' r r' : Table V} (hltypes : l.types = l'.types)
    (hlrows : l.rows.Perm l'.rows) (hrtypes : r.types = r'.types) (hrrows : r.rows.Perm r'.rows)
    (h : keys.AreEvaluated C l r) : keys.AreEvaluated C l' r' := by
  obtain ⟨⟨leftKeys, hl⟩, rightKeys, hr⟩ := h
  obtain ⟨leftColumns, hl, -⟩ := bind_eq_ok hl
  obtain ⟨rightColumns, hr, -⟩ := bind_eq_ok hr
  have hl' : keys.leftKeyExprs.mapM (evaluateExpression C l' 0) = .ok leftColumns :=
    (mapM_congr fun e _ => (evaluate_congr hltypes hlrows 0 e).symm).trans hl
  have hr' : keys.rightKeyExprs.mapM (evaluateExpression C r' l'.types.length) =
      .ok rightColumns := by
    rw [← hltypes]
    exact (mapM_congr fun e _ => (evaluate_congr hrtypes hrrows _ e).symm).trans hr
  exact ⟨⟨_, by rw [evaluateExpressions, hl']; rfl⟩, _, by rw [evaluateExpressions, hr']; rfl⟩

section Tasks

variable {leftTasks rightTasks : List (PartitionResult V)} {k : Nat}
  (h : relation.IsSupported left right keys leftColumns rightColumns)
  (hleft : List.Forall₂ (fun t p => PartitionResult.IsFor
    (H.rowPartition n left.types leftColumns) n t p) left.parts leftTasks)
  (hright : List.Forall₂ (fun t p => PartitionResult.IsFor
    (H.rowPartition n right.types rightColumns) n t p) right.parts rightTasks)
  (hk : k < n)

include h hleft hright hk in
/-- A hash partition is joined. -/
lemma joinPartition_eq_ok (hfind : keys.FindRightTypes left.types right.types)
    (hkeys : keys.AreEvaluated J.expressions (hashPartition H n leftColumns left k)
      (hashPartition H n rightColumns right k)) :
    ∃ t, relation.joinPartition J leftTasks rightTasks k = .ok (.table t) ∧
      t.rows.Perm
        (partitionJoin J H n relation keys leftColumns rightColumns left right k).rows := by
  obtain ⟨l, hl, hltypes, hlrows⟩ := mergeTask_eq_ok hleft hk
  obtain ⟨r, hr, hrtypes, hrrows⟩ := mergeTask_eq_ok hright hk
  have htask : relation.joinTask.IsSupported l.types r.types keys := by
    rw [hltypes, hrtypes]
    exact h.joinTask
  have hkeys' : keys.AreEvaluated J.expressions l r :=
    areEvaluated_congr hltypes.symm hlrows.symm hrtypes.symm hrrows.symm hkeys
  have hfind' : keys.FindRightTypes l.types r.types := by
    rw [hltypes, hrtypes]
    exact hfind
  have hproj : ∀ c ∈ relation.joinTask.projectionIndices,
      c < (joinTypes relation.joinTask.joinType l r).length := by
    rw [joinTypes_congr (show l.types = left.whole.types from hltypes)
      (show r.types = right.whole.types from hrtypes)]
    exact h.projection
  obtain ⟨t, cache, ht, hperm, -⟩ := execute_eq_table htask hfind' hkeys'
    (show relation.joinTask.CacheFor J.expressions keys l r none from fun _ _ _ => nofun) rfl
    hproj
  refine ⟨t, ?_, hperm.trans ?_⟩
  · simp [ShuffleJoin.joinPartition, hl, hr, ht]
  · rw [joinBy, Table.numColumns, Table.numColumns, hltypes, hrtypes]
    exact rows_materialize_perm _ _
      (joinRowsBy_perm _ _ _ h.ne_full h.ne_single hlrows hrrows) _

include h hleft hright hk in
lemma areEvaluated_of_joinPartition {result : TaskResult V}
    (hjoin : relation.joinPartition J leftTasks rightTasks k = .ok result) :
    keys.AreEvaluated J.expressions (hashPartition H n leftColumns left k)
      (hashPartition H n rightColumns right k) := by
  obtain ⟨l, hl, hltypes, hlrows⟩ := mergeTask_eq_ok hleft hk
  obtain ⟨r, hr, hrtypes, hrrows⟩ := mergeTask_eq_ok hright hk
  simp only [ShuffleJoin.joinPartition, hl, hr, bind, Except.bind] at hjoin
  split at hjoin
  · cases hjoin
  · rename_i output houtput
    exact areEvaluated_congr hltypes hlrows hrtypes hrrows (areEvaluated_of_execute h.parse houtput)

end Tasks

omit [LinearOrder V] in
lemma exists_tables {α : Type} {P : α → Table V → Prop} {xs : List α}
    {results : List (TaskResult V)}
    (h : List.Forall₂ (fun x result => ∃ t, result = .table t ∧ P x t) xs results) :
    ∃ tables, results = tables.map .table ∧ List.Forall₂ P xs tables := by
  induction h with
  | nil => exact ⟨[], rfl, .nil⟩
  | cons hx _ ih =>
    obtain ⟨t, rfl, ht⟩ := hx
    obtain ⟨tables, rfl, htabs⟩ := ih
    exact ⟨t :: tables, rfl, .cons ht htabs⟩

end Relation

def HashPartitioning.integers : HashPartitioning Int :=
  .ofHash fun _ key => (key.col 0).elim 0 Int.natAbs

def integerShuffleJoin (condition : Expr Int) : ShuffleJoin Int where
  joinType := .inner
  condition := condition
  projectionIndices := [0, 1]
  perfectHashing := false
  leftShuffleCols := [.columnReference 0]
  rightShuffleCols := [.columnReference 0]

end Gqe.Join
