import Gqe.HashGroupBy.Conditions

/-!
# Hash group-by refines group-by

The tasks of an aggregation are given by a group-by that computes the measures of the rows that meet
the condition. The grouped path of `aggregate_task::execute` with its kernels has the same rows, in
some order, as long as the kernels return and no NULL is taken for TRUE.
-/

namespace Gqe.HashGroupBy.Query

open Aggregation Scatter Grouping List

variable {V : Type*} [LinearOrder V] [CommSemiring V] (R : Reductions V) (C : Cudf V) (P : Platform)
  (q : Query V)

def measures : List (AggregationKind × (Nat → Option V)) :=
  q.values.map fun value => (value.1, fun i => value.2.eval C q.input.typeOf (q.row i))

def aggregates : Aggregates (Option V) where
  kernel := Launch.measureAccumulators (q.measures C)
  library col rows := (Launch.measureRow R (q.measures C) rows).getD col none

/-- The grouped path of `aggregate_task::execute`: the rows of the result, if the kernels return. -/
def executeGroupby (turns : Nat) : Except String (Option (List (Row V))) :=
  match q.values.find? fun value => !isGroupbyAggregation value.1 with
  | some (kind, _) => .error s!"Unknown groupby aggregation: {R.ordinal kind}"
  | none => (q.aggregate C P (q.aggregates R C) turns).map fun result =>
      result.map fun groups => groups.map fun group => q.key C group.1 ++ group.2.map Option.join

variable {R C P q}

/-! ### Rows and their indices -/

omit [LinearOrder V] [CommSemiring V] in
lemma map_row_range : (List.range q.input.rows.length).map q.row = q.input.rows := by
  refine ext_getElem (by simp) fun i hi hi' => ?_
  simp [row, List.getElem?_eq_getElem hi']

omit [CommSemiring V] in
lemma map_row_trueRows : (q.trueRows C).map q.row = activeRows C q.condition q.input := by
  unfold trueRows activeRows conditionValue
  cases q.condition with
  | none => simpa using map_row_range
  | some c =>
    have hrows :=
      congrArg (List.filter fun r => c.IsTrue C q.input.typeOf r) (map_row_range (q := q))
    rw [filter_map] at hrows
    exact hrows

lemma groupRow_eq (k : Row V) : groupRow R C q.input.typeOf q.values k
        (group (keyOf C q.input.typeOf q.keys) (activeRows C q.condition q.input) k) =
      k ++ Launch.measureRow R (q.measures C) ((q.trueRows C).filter fun i => q.key C i = k) := by
  have hgroup : group (keyOf C q.input.typeOf q.keys) (activeRows C q.condition q.input) k =
      ((q.trueRows C).filter fun i => q.key C i = k).map q.row := by
    rw [← map_row_trueRows, group, filter_map]
    rfl
  rw [hgroup, Launch.measureRow, measures, map_map]
  refine congrArg (k ++ ·) (map_congr_left ?_)
  rintro ⟨kind, e⟩ -
  exact congrArg (R.reduce kind) (map_map ..)

lemma map_groups_perm {result : List (Nat × List (Option (List Nat)))}
    (h : (q.launch C P).AggregatesOnce (q.trueRows C) result) :
    (result.map fun group => q.key C group.1 ++ Launch.measureRow R (q.measures C)
        ((q.trueRows C).filter fun i => q.key C i = q.key C group.1)).Perm
      (groupRows R C q.input.typeOf q.keys q.values (activeRows C q.condition q.input)) := by
  have hkeys : (result.map fun group => q.key C group.1).Perm
      (R.groupOrder
        ((activeRows C q.condition q.input).map (keyOf C q.input.typeOf q.keys)).dedup) := by
    refine (perm_ext_iff_of_nodup h.nodup_keys
      (nodup_order_dedup R.groupOrder_perm _)).2 fun k => ?_
    rw [mem_order_dedup R.groupOrder_perm, ← map_row_trueRows, map_map]
    exact h.mem_keys k
  have hmap := hkeys.map fun k =>
    k ++ Launch.measureRow R (q.measures C) ((q.trueRows C).filter fun i => q.key C i = k)
  rw [map_map] at hmap
  refine hmap.trans (List.Perm.of_eq (map_congr_left fun k _ => ?_))
  exact (groupRow_eq k).symm

/-! ### The task -/

/-- **The grouped path of an aggregate task refines the aggregation by an ideal group-by.** -/
theorem executeGroupby_perm (hkinds : ∀ value ∈ q.values, IsFirst value.1) (hkeys : q.keys ≠ [])
    (hvalid : ∀ value ∈ q.values, P.isValidAggregation (q.valueType value) value.1)
    (hhash : q.canUseHashGroupby P) (hfit : (q.launch C P).ColumnsFit)
    (hnull : ∀ i < q.input.rows.length, q.conditionValue C i = none → P.nullByte i = false) :
    ∃ turns rows u, q.executeGroupby R C P turns = .ok (some rows) ∧
      executeAggregate R C q.keys q.values q.condition q.input = .ok u ∧ rows.Perm u.rows := by
  obtain ⟨u, hu, -, hrows⟩ := executeAggregate_eq R C q.keys hkinds
    (fun h => absurd h hkeys) q.input
  have hgroupRows : u.rows =
      groupRows R C q.input.typeOf q.keys q.values (activeRows C q.condition q.input) := by
    rw [hrows, aggregateRows, if_neg hkeys]
  have hexec : ∀ turns, q.executeGroupby R C P turns =
      (q.aggregate C P (q.aggregates R C) turns).map fun result =>
        result.map fun groups => groups.map fun group =>
          q.key C group.1 ++ group.2.map Option.join := by
    intro turns
    rw [executeGroupby, find?_not_isGroupbyAggregation hkinds]
  simp only [hexec, aggregate_of_canUse C P q _ _ hvalid hhash, Except.map]
  have hact := activeRows_launch hnull
  by_cases hemp : q.input.rows.isEmpty
  · refine ⟨0, [], u, by rw [if_pos hemp]; rfl, hu, ?_⟩
    rw [hgroupRows]
    exact map_groups_perm (P := P) (aggregatesOnce_nil hemp)
  · obtain ⟨turns, result, hres⟩ := (q.launch C P).exists_groupby P.schedule hfit
      (by rw [hact, trueRows_launch]; simp)
    have honce := Launch.once_of_groupby hres
    have hfst : ∀ m ∈ q.measures C, IsFirst m.1 := by
      intro m hm
      obtain ⟨value, hvalue, rfl⟩ := mem_map.1 hm
      exact hkinds value hvalue
    have hmeas := Launch.groupby_measureAccumulators R hfst (by simp [measures])
      hres
    have hkernel : ¬((q.values.any fun value => !isKernelAggregation value.1) ∧
        (q.launch C P).activeRows ≠ []) := by
      rintro ⟨hany, -⟩
      obtain ⟨value, hvalue, hkind⟩ := any_eq_true.1 hany
      rw [isKernel_of_isFirst (hkinds value hvalue)] at hkind
      cases hkind
    rw [hact] at honce hmeas
    refine ⟨turns, _, u, ?_, hu, hgroupRows ▸ map_groups_perm honce⟩
    rw [if_neg hemp, if_neg hkernel, aggregates, hmeas, Option.map_some]
    simp only [Function.comp_def, map_map, Option.join_some, map_id']
    rfl

theorem executeGroupby_twoRows : ∃ turns rows u,
      (twoRows [.sum] none).executeGroupby .integers .integers (.small false) turns =
        .ok (some rows) ∧
      executeAggregate .integers .integers (twoRows [.sum] none).keys (twoRows [.sum] none).values
        (twoRows [.sum] none).condition (twoRows [.sum] none).input = .ok u ∧ rows.Perm u.rows :=
  executeGroupby_perm (by decide) (by simp [twoRows]) (fun _ _ => rfl) (by decide) (by decide)
    fun _ _ _ => rfl

end Gqe.HashGroupBy.Query
