import Gqe.HashGroupBy.Correctness

/-!
# Aggregating the rows that meet a condition

`executor/groupby/groupby.cu` and the grouped path of `executor/aggregate.cpp`. The condition of an
aggregation is handed to group-by as a column of Booleans. Hash group-by reads the bytes of that
column, also where it is NULL. If a measure cannot be hashed, all measures are left to the group-by
of cuDF, which does not get the column.
-/

namespace Gqe.HashGroupBy

open Aggregation Scatter List KeyedSet

/-- What group-by runs on: the device, the order of its operations, what its memory holds in a
column of Booleans where that is NULL, and the group-by of cuDF, which has no median by hashing. -/
structure Platform where
  detectedGridSize : Nat
  detectedGridSize_pos : 0 < detectedGridSize
  shmemSize : Nat
  schedule : Schedule
  nullByte : (row : Nat) → Bool
  /-- `cudf::detail::is_valid_aggregation`. -/
  isValidAggregation : DataType → AggregationKind → Bool
  /-- What `can_use_hash_groupby` asks of each request. -/
  canUseHashGroupby : DataType → AggregationKind → Bool
  canUseHashGroupby_median : ∀ type, canUseHashGroupby type .median = false
  groupOrder : List Nat → List Nat
  groupOrder_perm : ∀ rows, (groupOrder rows).Perm rows

/-- The kinds the kernels have code for. -/
def isKernelAggregation : AggregationKind → Bool
  | .sum | .product | .min | .max | .countValid | .countAll | .sumOfSquares => true
  | _ => false

lemma isKernel_of_isFirst {kind : AggregationKind} (h : IsFirst kind) :
    isKernelAggregation kind := by
  simp only [IsFirst, mem_cons, not_mem_nil, or_false] at h
  rcases h with rfl | rfl | rfl | rfl | rfl <;> rfl

/-- Aggregates in each column: as the kernels compute them, and of the rows of a group as
cuDF does. -/
structure Aggregates (A : Type*) where
  kernel : (col : Nat) → Accumulator Nat A
  library : (col : Nat) → List Nat → A

def Aggregates.record : Aggregates (List Nat) where
  kernel _ := .record
  library _ rows := rows

/-- The grouped aggregation of a table. -/
structure Query (V : Type*) where
  input : Table V
  keys : List (Expr V)
  values : List (AggregationKind × Expr V)
  condition : Option (Expr V)

namespace Query

variable {V A : Type*} [LinearOrder V] (C : Cudf V) (P : Platform) (q : Query V)

def row (i : Nat) : Row V := q.input.rows.getD i []

def key (i : Nat) : Row V := keyOf C q.input.typeOf q.keys (q.row i)

/-- The condition in a row, which is TRUE if there is none. -/
def conditionValue (i : Nat) : Option Bool :=
  match q.condition with
  | none => some true
  | some c => C.toBool (c.eval C q.input.typeOf (q.row i))

@[simp] def launch : Launch (Row V) where
  numInputRows := q.input.rows.length
  key := q.key C
  maskByte i := (q.conditionValue C i).getD (P.nullByte i)
  maskNull i := q.conditionValue C i = none
  numColumns := q.values.length
  detectedGridSize := P.detectedGridSize
  detectedGridSize_pos := P.detectedGridSize_pos
  shmemSize := P.shmemSize

def valueType (value : AggregationKind × Expr V) : DataType :=
  (value.2.dataType q.input.typeOf).getD .empty

def canUseHashGroupby : Bool :=
  q.values.all fun value => P.canUseHashGroupby (q.valueType value) value.1

/-- The group-by of cuDF on all rows: each group is given by its first row. -/
def cudfGroupby (m : Aggregates A) : List (Nat × List (Option A)) :=
  (P.groupOrder (insertAll (q.key C) [] (range q.input.rows.length))).map fun out =>
    (out, (range q.values.length).map fun col =>
      some (m.library col ((range q.input.rows.length).filter fun row =>
        q.key C row = q.key C out)))

/-- `groupby::aggregate`: `none` if the kernels do not return after so many turns of the loop over
the columns, or get to code that is marked as unreachable. -/
def aggregate (m : Aggregates A) (turns : Nat) :
    Except String (Option (List (Nat × List (Option A)))) :=
  if q.values.all fun value => P.isValidAggregation (q.valueType value) value.1 then
    if !q.canUseHashGroupby P then .ok (some (q.cudfGroupby C P m))
    else if q.input.rows.isEmpty then .ok (some [])
    else if (q.values.any fun value => !isKernelAggregation value.1) ∧
        (q.launch C P).activeRows ≠ [] then .ok none
    else .ok ((q.launch C P).groupby P.schedule m.kernel turns)
  else .error "Invalid type/aggregation combination."

def trueRows : List Nat :=
  (range q.input.rows.length).filter fun i => q.conditionValue C i = some true

lemma trueRows_launch : (q.launch C P).trueRows = q.trueRows C := by
  refine filter_congr fun i _ => ?_
  cases h : q.conditionValue C i <;> simp [h]

variable {C P q}

/-- The active rows are those that meet the condition if no NULL has a TRUE byte. -/
lemma activeRows_launch
    (hnull : ∀ i < q.input.rows.length, q.conditionValue C i = none → P.nullByte i = false) :
    (q.launch C P).activeRows = q.trueRows C := by
  refine filter_congr fun i hi => ?_
  cases hvalue : q.conditionValue C i with
  | none => simp [hvalue, hnull i (mem_range.1 hi) hvalue]
  | some b => simp [hvalue]

lemma aggregatesOnce_nil (h : q.input.rows.isEmpty) :
    (q.launch C P).AggregatesOnce (q.trueRows C) [] := by
  have htrue : q.trueRows C = [] := by
    rw [trueRows, isEmpty_iff.1 h]
    rfl
  rw [htrue]
  exact ⟨nodup_nil, by simp, by simp, by simp⟩

lemma once_cudfGroupby :
    (q.launch C P).AggregatesOnce (range q.input.rows.length) (q.cudfGroupby C P .record) := by
  have hkeys := (P.groupOrder_perm
    (insertAll (q.key C) [] (range q.input.rows.length))).map (q.key C)
  refine ⟨?_, fun k => ?_, fun group hgroup => ?_, fun group hgroup column hcol => ?_⟩
  · rw [cudfGroupby, map_map]
    exact hkeys.nodup_iff.2 (nodup_insertAll_nil _)
  · rw [cudfGroupby, map_map]
    refine hkeys.mem_iff.trans ?_
    rw [mem_keys_insertAll]
    simp
  · obtain ⟨out, -, rfl⟩ := mem_map.1 hgroup
    simp
  · obtain ⟨out, -, rfl⟩ := mem_map.1 hgroup
    obtain ⟨col, -, rfl⟩ := mem_map.1 hcol
    exact ⟨_, rfl, List.Perm.refl _⟩

lemma once_cudfGroupby_iff (hvals : q.values ≠ []) :
    (q.launch C P).AggregatesOnce (q.trueRows C) (q.cudfGroupby C P .record) ↔
      ∀ i < q.input.rows.length, q.conditionValue C i = some true := by
  constructor
  · intro h i hi
    have hcols : (q.launch C P).numColumns ≠ 0 := fun hzero =>
      hvals (length_eq_zero_iff.1 hzero)
    have hmem := once_cudfGroupby.mem_of_mem h hcols (mem_range.2 hi)
    exact of_decide_eq_true (mem_filter.1 hmem).2
  · intro h
    have hrows : q.trueRows C = range q.input.rows.length :=
      filter_eq_self.2 fun i hi => decide_eq_true (h i (mem_range.1 hi))
    rw [hrows]
    exact once_cudfGroupby

variable (C P q) in
/-- If all requests can be hashed, the kernels run, except on an empty table or where they would get
to unreachable code. -/
lemma aggregate_of_canUse (m : Aggregates A) (turns : Nat)
    (hvalid : ∀ value ∈ q.values, P.isValidAggregation (q.valueType value) value.1)
    (hhash : q.canUseHashGroupby P) :
    q.aggregate C P m turns = .ok (
      if q.input.rows.isEmpty then some []
      else if (q.values.any fun value => !isKernelAggregation value.1) ∧
          (q.launch C P).activeRows ≠ [] then none
      else (q.launch C P).groupby P.schedule m.kernel turns) := by
  rw [aggregate, if_pos (all_eq_true.2 hvalid), hhash, if_neg (by simp)]
  split_ifs <;> rfl

lemma exists_groupby_launch_iff : (∃ turns result,
      (q.launch C P).groupby P.schedule (fun _ => .record) turns = some result ∧
        (q.launch C P).AggregatesOnce (q.trueRows C) result) ↔ (q.launch C P).ColumnsFit ∧
        ∀ i < q.input.rows.length, q.conditionValue C i = none → P.nullByte i →
          q.values = [] ∧ q.key C i ∈ (q.trueRows C).map (q.key C) := by
  rw [← trueRows_launch C P q, (q.launch C P).exists_aggregatesOnce_trueRows_iff P.schedule]
  refine and_congr Iff.rfl (forall₂_congr fun i _ => ?_)
  have hnull : (q.launch C P).maskNull i ↔ q.conditionValue C i = none := decide_eq_true_iff
  have hbyte : q.conditionValue C i = none → ((q.launch C P).maskByte i ↔ P.nullByte i) := by
    intro h
    simp [h]
  have hcols : (q.launch C P).numColumns = 0 ↔ q.values = [] := length_eq_zero_iff
  constructor
  · intro h hvalue hnullByte
    exact (h ((hbyte hvalue).2 hnullByte) (hnull.2 hvalue)).imp hcols.1 id
  · intro h hmask hvalue
    rw [hnull] at hvalue
    exact (h hvalue ((hbyte hvalue).1 hmask)).imp hcols.2 id

/-- When exactly the rows that meet the condition contribute. -/
lemma exists_aggregate_iff
    (hvalid : ∀ value ∈ q.values, P.isValidAggregation (q.valueType value) value.1) :
    (∃ turns result, q.aggregate C P .record turns = .ok (some result) ∧
      (q.launch C P).AggregatesOnce (q.trueRows C) result) ↔
      if q.canUseHashGroupby P then
        ((∀ value ∈ q.values, isKernelAggregation value.1) ∨ (q.launch C P).activeRows = []) ∧
          (q.launch C P).ColumnsFit ∧
          ∀ i < q.input.rows.length, q.conditionValue C i = none → P.nullByte i →
            q.values = [] ∧ q.key C i ∈ (q.trueRows C).map (q.key C)
      else ∀ i < q.input.rows.length, q.conditionValue C i = some true := by
  by_cases hhash : q.canUseHashGroupby P
  · simp only [aggregate_of_canUse C P q _ _ hvalid hhash, if_pos hhash, Except.ok.injEq]
    by_cases hemp : q.input.rows.isEmpty
    · have hlen : q.input.rows.length = 0 := by simpa using hemp
      have hact : (q.launch C P).activeRows = [] := by
        rw [launch, hlen]
        rfl
      simp only [if_pos hemp]
      refine ⟨fun _ => ⟨.inr hact, ?_, ?_⟩, fun _ => ⟨0, [], rfl, aggregatesOnce_nil hemp⟩⟩
      · refine (q.launch C P).columnsFit_of_inactive fun row hrow => absurd hrow ?_
        rw [launch, hlen]
        exact Nat.not_lt_zero row
      · omega
    by_cases hreach : (q.values.any fun value => !isKernelAggregation value.1) ∧
        (q.launch C P).activeRows ≠ []
    · simp only [if_neg hemp, if_pos hreach]
      constructor
      · rintro ⟨turns, result, h, -⟩
        cases h
      · rintro ⟨hkernel | hact, -⟩
        · obtain ⟨value, hvalue, hkind⟩ := any_eq_true.1 hreach.1
          rw [hkernel value hvalue] at hkind
          cases hkind
        · exact absurd hact hreach.2
    · have hkernel : (∀ value ∈ q.values, isKernelAggregation value.1) ∨
          (q.launch C P).activeRows = [] := by
        by_contra h
        rw [not_or] at h
        refine hreach ⟨?_, h.2⟩
        simpa using h.1
      simp only [if_neg hemp, if_neg hreach]
      rw [and_iff_right hkernel]
      exact exists_groupby_launch_iff
  · have hvals : q.values ≠ [] := fun hnil => hhash (by rw [canUseHashGroupby, hnil]; rfl)
    have haggregate : ∀ turns, q.aggregate C P .record turns =
        .ok (some (q.cudfGroupby C P .record)) := by
      intro turns
      rw [aggregate, if_pos (all_eq_true.2 hvalid), if_pos (by simpa using hhash)]
    simp only [haggregate, if_neg hhash, Except.ok.injEq, Option.some.injEq, exists_eq_left',
      exists_const]
    exact once_cudfGroupby_iff hvals

/-- **Aggregations with a condition that is never NULL.** The condition is honoured unless a measure
cannot be hashed; then it must be TRUE on all rows. -/
theorem exists_aggregate_iff_of_condition
    (hvalid : ∀ value ∈ q.values, P.isValidAggregation (q.valueType value) value.1)
    (hcondition : ∀ i < q.input.rows.length, q.conditionValue C i ≠ none) :
    (∃ turns result, q.aggregate C P .record turns = .ok (some result) ∧
      (q.launch C P).AggregatesOnce (q.trueRows C) result) ↔
      if q.canUseHashGroupby P then
        q.trueRows C = [] ∨
          (∀ value ∈ q.values, isKernelAggregation value.1) ∧ (q.launch C P).ColumnsFit
      else ∀ i < q.input.rows.length, q.conditionValue C i = some true := by
  have hrows : (q.launch C P).activeRows = q.trueRows C :=
    activeRows_launch fun i hi h => absurd h (hcondition i hi)
  have hnull : ∀ i < q.input.rows.length, q.conditionValue C i = none → P.nullByte i →
      q.values = [] ∧ q.key C i ∈ (q.trueRows C).map (q.key C) := fun i hi h =>
    absurd h (hcondition i hi)
  have hfit : q.trueRows C = [] → (q.launch C P).ColumnsFit := by
    intro h
    refine (q.launch C P).columnsFit_of_inactive fun i hi hbyte => ?_
    have hmem : i ∈ (q.launch C P).activeRows :=
      mem_filter.2 ⟨mem_range.2 hi, hbyte⟩
    rw [hrows, h] at hmem
    cases hmem
  rw [exists_aggregate_iff hvalid, hrows]
  split_ifs
  · constructor
    · rintro ⟨hkernel | htrue, hcolumns, -⟩
      · exact .inr ⟨hkernel, hcolumns⟩
      · exact .inl htrue
    · rintro (htrue | ⟨hkernel, hcolumns⟩)
      · exact ⟨.inr htrue, hfit htrue, hnull⟩
      · exact ⟨.inl hkernel, hcolumns, hnull⟩
  · rfl

/-- **Aggregations with a condition that may be NULL.** A NULL with a TRUE byte counts as TRUE. -/
theorem exists_aggregate_iff_of_isFirst (hkinds : ∀ value ∈ q.values, IsFirst value.1)
    (hvalid : ∀ value ∈ q.values, P.isValidAggregation (q.valueType value) value.1) :
    (∃ turns result, q.aggregate C P .record turns = .ok (some result) ∧
      (q.launch C P).AggregatesOnce (q.trueRows C) result) ↔
      if q.canUseHashGroupby P then
        (q.launch C P).ColumnsFit ∧
          ∀ i < q.input.rows.length, q.conditionValue C i = none → P.nullByte i →
            q.values = [] ∧ q.key C i ∈ (q.trueRows C).map (q.key C)
      else ∀ i < q.input.rows.length, q.conditionValue C i = some true := by
  have hkernel : ∀ value ∈ q.values, isKernelAggregation value.1 := fun value hvalue =>
    isKernel_of_isFirst (hkinds value hvalue)
  rw [exists_aggregate_iff hvalid]
  split_ifs
  · rw [and_iff_right (.inl hkernel)]
  · rfl

end Query

/-- A device with 24 KiB of shared memory for a block and the same byte in place of all NULLs. -/
def Platform.small (nullByte : Bool) : Platform where
  detectedGridSize := 1
  detectedGridSize_pos := Nat.one_pos
  shmemSize := 24576
  schedule := .inOrder
  nullByte _ := nullByte
  isValidAggregation _ _ := true
  canUseHashGroupby _ kind := isKernelAggregation kind
  canUseHashGroupby_median _ := rfl
  groupOrder := id
  groupOrder_perm := .refl

/-- Two rows with one key, and a condition in the last column. -/
def twoRows (values : List AggregationKind) (condition : Option Int) : Query Int where
  input :=
    { types := [.int64, .int64, .bool8]
      rows := [[some 7, some 10, some 1], [some 7, some 20, condition]]
      length_row := by simp
      rows_of_no_columns := by simp }
  keys := [.columnReference 0]
  values := values.map fun kind => (kind, .columnReference 1)
  condition := some (.columnReference 2)

theorem exists_aggregate_twoRows_max : ∃ turns result,
      (twoRows [.sum, .max] (some 0)).aggregate .integers (.small true) .record turns =
        .ok (some result) ∧
      ((twoRows [.sum, .max] (some 0)).launch .integers (.small true)).AggregatesOnce
        ((twoRows [.sum, .max] (some 0)).trueRows .integers) result := by
  refine (Query.exists_aggregate_iff_of_condition (fun _ _ => rfl) (by decide)).2 ?_
  exact .inr ⟨by decide, by decide⟩

/-- With a median, the second row contributes though its condition is FALSE. -/
theorem aggregate_twoRows_median : (twoRows [.sum, .median] (some 0)).trueRows .integers = [0] ∧
      (twoRows [.sum, .median] (some 0)).aggregate .integers (.small true) .record 1 =
        .ok (some [(0, [some [0, 1], some [0, 1]])]) := by
  constructor
  · decide
  · rfl

theorem exists_aggregate_twoRows_null : ∃ turns result,
      (twoRows [.sum] none).aggregate .integers (.small false) .record turns = .ok (some result) ∧
      ((twoRows [.sum] none).launch .integers (.small false)).AggregatesOnce
        ((twoRows [.sum] none).trueRows .integers) result := by
  refine (Query.exists_aggregate_iff_of_isFirst (by decide) fun _ _ => rfl).2 ?_
  exact ⟨by decide, fun _ _ _ h => absurd h Bool.false_ne_true⟩

/-- With a TRUE byte, the second row contributes though its condition is NULL. -/
theorem aggregate_twoRows_null : (twoRows [.sum] none).trueRows .integers = [0] ∧
      (twoRows [.sum] none).aggregate .integers (.small true) .record 1 =
        .ok (some [(0, [some [0, 1]])]) := by
  constructor
  · decide
  · rfl

end Gqe.HashGroupBy
