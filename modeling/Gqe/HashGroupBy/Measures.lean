import Gqe.Aggregation.Properties
import Gqe.Lib.Scatter

/-!
# The aggregates of hash group-by

`executor/groupby/row_aggregator.cuh`: how the kernels initialize an aggregate, add the element of a
row to it and add an aggregate of shared memory to one of the sparse table.
-/

namespace Gqe.HashGroupBy

open Aggregation Scatter Grouping List Accumulator

variable {V : Type*} [LinearOrder V] [CommSemiring V]

def atomicOp : AggregationKind → V → V → V
  | .product => (· * ·)
  | .min => min
  | .max => max
  | _ => (· + ·)

/-- What an element adds to the aggregate of a kind: nothing if it is NULL, except
in `COUNT_ALL`. -/
def element : AggregationKind → Option V → Option V
  | .sumOfSquares, v => v.map fun v => v * v
  | .countValid, v => v.map fun _ => 1
  | .countAll, _ => some 1
  | _, v => v

/-- `initialize_shmem`, `shmem_element_aggregator` and `gmem_element_aggregator`. An aggregate is
NULL until there is an element, but a count never is. -/
def measureAccumulator (kind : AggregationKind) (column : Nat → Option V) :
    Accumulator Nat (Option V) where
  identity := if kind = .countValid ∨ kind = .countAll then some 0 else none
  update a row := a.merge (atomicOp kind) (element kind (column row))
  merge := Option.merge (atomicOp kind)

variable {kind : AggregationKind} {column : Nat → Option V}

instance associative_atomicOp : Std.Associative (atomicOp (V := V) kind) := by
  cases kind with
  | product => exact ⟨mul_assoc⟩
  | min => exact ⟨min_assoc⟩
  | max => exact ⟨max_assoc⟩
  | _ => exact ⟨add_assoc⟩

lemma foldl_update (a : Option V) (rows : List Nat) :
    rows.foldl (measureAccumulator kind column).update a =
      (rows.map fun row => element kind (column row)).foldl (Option.merge (atomicOp kind)) a := by
  rw [foldl_map]
  rfl

lemma merge_identity (rows : List Nat) :
    ((measureAccumulator kind column).fold rows).merge (atomicOp kind)
        (measureAccumulator kind column).identity = (measureAccumulator kind column).fold rows := by
  by_cases hcnt : kind = .countValid ∨ kind = .countAll
  · have hid : (measureAccumulator kind column).identity = some 0 := if_pos hcnt
    have hsome : ∀ c : V, ∃ d : V,
        rows.foldl (measureAccumulator kind column).update (some c) = some d := by
      induction rows with
      | nil => exact fun c => ⟨c, rfl⟩
      | cons row rows ih =>
        intro c
        have hupdate : (measureAccumulator kind column).update (some c) row =
            (some c).merge (atomicOp kind) (element kind (column row)) := rfl
        rw [foldl_cons, hupdate]
        cases element kind (column row) with
        | none => exact ih c
        | some v => exact ih (atomicOp kind c v)
    obtain ⟨d, hd⟩ := hsome 0
    have hop : atomicOp kind d 0 = d := by
      rcases hcnt with rfl | rfl
      · exact add_zero d
      · exact add_zero d
    rw [fold, hid, hd, Option.merge_some_some, hop]
  · have hid : (measureAccumulator kind column).identity = none := if_neg hcnt
    rw [hid, Option.merge_none_right]

/-- Aggregating in shared memory first makes no difference. -/
lemma isLawful_measureAccumulator : (measureAccumulator kind column).IsLawful := by
  intro rows rows'
  calc ((measureAccumulator kind column).fold rows).merge (atomicOp kind)
        ((measureAccumulator kind column).fold rows')
      = (rows'.map fun row => element kind (column row)).foldl (Option.merge (atomicOp kind))
          (((measureAccumulator kind column).fold rows).merge (atomicOp kind)
            (measureAccumulator kind column).identity) := by
        rw [foldl_assoc, fold, fold, foldl_update _ rows']
    _ = (measureAccumulator kind column).fold (rows ++ rows') := by
        rw [merge_identity, ← foldl_update, fold, fold, foldl_append]

/-! ### What the aggregates are -/

lemma fold_of_isReduction {F : List V → Option V} (hF : IsReduction (atomicOp kind) F)
    (hid : (measureAccumulator kind column).identity = none)
    (helement : ∀ v : Option V, element kind v = v) (rows : List Nat) :
    (measureAccumulator kind column).fold rows = F (rows.map column).reduceOption := by
  rw [fold, foldl_update, hF.foldl_merge, hid, Option.merge_none_left]
  simp [helement]

omit [LinearOrder V] in
lemma foldl_merge_count (vs : List (Option V)) (c : V) :
    (vs.map fun v => v.map fun _ => (1 : V)).foldl (Option.merge (· + ·)) (some c) =
      some (c + (vs.reduceOption.length : V)) := by
  induction vs generalizing c with
  | nil => simp
  | cons v vs ih =>
    cases v with
    | none => simpa using ih c
    | some v =>
      rw [map_cons, foldl_cons, Option.map_some, Option.merge_some_some, ih,
        reduceOption_cons_of_some, length_cons, Nat.cast_succ, add_assoc, add_comm (1 : V)]

/-- The kernels compute what the reductions of cuDF do. -/
lemma fold_measureAccumulator (R : Reductions V) (hkind : IsFirst kind) (rows : List Nat) :
    (measureAccumulator kind column).fold rows = R.reduce kind (rows.map column) := by
  simp only [IsFirst, mem_cons, not_mem_nil, or_false] at hkind
  rcases hkind with rfl | rfl | rfl | rfl | rfl
  · exact (fold_of_isReduction isReduction_sum? rfl (fun _ => rfl) rows).trans
      (R.reduce_sum _).symm
  · have hcnt := foldl_merge_count (rows.map column) 0
    rw [map_map, zero_add] at hcnt
    rw [fold, foldl_update, R.reduce_countValid]
    exact hcnt
  · have hcnt := foldl_merge_count (rows.map fun _ => some (0 : V)) 0
    rw [map_map] at hcnt
    rw [fold, foldl_update, R.reduce_countAll]
    refine hcnt.trans ?_
    simp [List.reduceOption]
  · exact (fold_of_isReduction isReduction_min? rfl (fun _ => rfl) rows).trans
      (R.reduce_min _).symm
  · exact (fold_of_isReduction isReduction_max? rfl (fun _ => rfl) rows).trans
      (R.reduce_max _).symm

end Gqe.HashGroupBy
