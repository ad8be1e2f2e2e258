import Gqe.Aggregation.Basic
import Gqe.Lib.Fallible
import Mathlib.Algebra.BigOperators.Ring.Finset

/-!
# Steps of an aggregation in two phases

Each kind of the first aggregation is decomposed by the kind of the second, and the columns of the
second aggregation are found by the output expressions at a running index.
-/

namespace Gqe.Aggregation

open Grouping List

variable {V : Type*} [LinearOrder V] [AddCommMonoidWithOne V] (R : Reductions V) (C : Cudf V)

/-! ### Decomposition of the kinds -/

/-- The kinds of the first aggregation. -/
def IsFirst (kind : AggregationKind) : Prop :=
  kind ∈ [.sum, .countValid, .countAll, .min, .max]

/-- The kinds of measures that can be computed in two phases. -/
def IsSupported (kind : AggregationKind) : Prop := kind = .mean ∨ IsFirst kind

instance : DecidablePred IsFirst := fun _ => inferInstanceAs (Decidable (_ ∈ _))

instance : DecidablePred IsSupported := fun _ => inferInstanceAs (Decidable (_ ∨ _))

/-- The kind of the second aggregation, for the kinds of the first. -/
def secondKind : AggregationKind → AggregationKind
  | .countValid | .countAll => .sum
  | kind => kind

def sum? (l : List V) : Option V := if l = [] then none else some l.sum

omit [LinearOrder V] in
lemma isReduction_sum? : IsReduction (· + ·) (sum? (V := V)) :=
  .of_cons rfl fun a l => by cases l <;> simp [sum?]

omit [AddCommMonoidWithOne V] in
lemma isReduction_min? : IsReduction min (min? (α := V)) :=
  .of_cons rfl fun a l => by rw [min?_cons]; cases l.min? <;> rfl

omit [AddCommMonoidWithOne V] in
lemma isReduction_max? : IsReduction max (max? (α := V)) :=
  .of_cons rfl fun a l => by rw [max?_cons]; cases l.max? <;> rfl

lemma reduce_sum_counts {ι : Type*} (count : ι → Nat) {Ls : List ι} (hLs : Ls ≠ []) :
    R.reduce .sum (Ls.map fun l => some (count l : V)) = some (((Ls.map count).sum : Nat) : V) := by
  have hvals : (Ls.map fun l => some (count l : V)).reduceOption =
      Ls.map fun l => (count l : V) := by
    simp [reduceOption]
  rw [R.reduce_sum, hvals, if_neg (by simpa using hLs), Nat.cast_list_sum, map_map]
  rfl

variable {kind : AggregationKind}

/-- Reducing the parts by a kind and their values by its second kind is reducing the whole. -/
lemma reduce_secondKind (hkind : IsFirst kind) {Ls : List (List (Option V))} (hLs : Ls ≠ []) :
    R.reduce (secondKind kind) (Ls.map (R.reduce kind)) = R.reduce kind Ls.flatten := by
  simp only [IsFirst, mem_cons, not_mem_nil, or_false] at hkind
  rcases hkind with rfl | rfl | rfl | rfl | rfl
  · have hsum : R.reduce .sum = fun l => sum? l.reduceOption := funext R.reduce_sum
    simpa only [secondKind, hsum] using isReduction_sum?.reduceOption_map Ls
  · have hcnt : R.reduce .countValid = fun l => some (l.reduceOption.length : V) :=
      funext R.reduce_countValid
    simp [hcnt, secondKind, reduce_sum_counts R _ hLs, reduceOption, Function.comp_def]
  · have hcnt : R.reduce .countAll = fun l => some (l.length : V) := funext R.reduce_countAll
    simp [hcnt, secondKind, reduce_sum_counts R _ hLs]
  · have hmin : R.reduce .min = fun l => l.reduceOption.min? := funext R.reduce_min
    simpa only [secondKind, hmin] using isReduction_min?.reduceOption_map Ls
  · have hmax : R.reduce .max = fun l => l.reduceOption.max? := funext R.reduce_max
    simpa only [secondKind, hmax] using isReduction_max?.reduceOption_map Ls

lemma reduce_perm (hkind : IsFirst kind) {l l' : List (Option V)}
    (h : l.Perm l') : R.reduce kind l = R.reduce kind l' := by
  have hvals : l.reduceOption.Perm l'.reduceOption := h.filterMap id
  simp only [IsFirst, mem_cons, not_mem_nil, or_false] at hkind
  rcases hkind with rfl | rfl | rfl | rfl | rfl
  · exact (R.reduce_sum l).trans ((isReduction_sum?.perm hvals).trans (R.reduce_sum l').symm)
  · rw [R.reduce_countValid, R.reduce_countValid, hvals.length_eq]
  · rw [R.reduce_countAll, R.reduce_countAll, h.length_eq]
  · rw [R.reduce_min, R.reduce_min, isReduction_min?.perm hvals]
  · rw [R.reduce_max, R.reduce_max, isReduction_max?.perm hvals]

/-- Counting by the size of the column is what the reduction to a count does. -/
lemma reduceColumn_eq (kind : AggregationKind) (column : List (Option V)) :
    reduceColumn R kind column = R.reduce kind column := by
  cases kind with
  | countValid =>
    have hcnt : column.reduceOption.length + column.countP (·.isNone) = column.length := by
      induction column with
      | nil => rfl
      | cons v column ih => cases v <;> simp <;> omega
    rw [R.reduce_countValid, reduceColumn, ← hcnt, Nat.add_sub_cancel]
  | countAll => exact (R.reduce_countAll column).symm
  | _ => rfl

omit [LinearOrder V] [AddCommMonoidWithOne V] in
lemma find?_not_isGroupbyAggregation {values : List (AggregationKind × Expr V)}
    (hvals : ∀ v ∈ values, IsFirst v.1) :
    values.find? (fun value => !isGroupbyAggregation value.1) = none := by
  refine find?_eq_none.2 fun v hv => ?_
  have hkind := hvals v hv
  simp only [IsFirst, mem_cons, not_mem_nil, or_false] at hkind
  rcases hkind with h | h | h | h | h <;> simp [h, isGroupbyAggregation]

/-! ### The measures of the two phases -/

section Measures
omit [LinearOrder V] [AddCommMonoidWithOne V]

def firstValues (value : AggregationKind × Expr V) : List (AggregationKind × Expr V) :=
  if value.1 = .mean then [(.sum, value.2), (.countValid, value.2)] else [value]

/-- The measures of the second aggregation, over the columns from `k` on. -/
def secondValues (k : Nat) (first : List (AggregationKind × Expr V)) :
    List (AggregationKind × Expr V) :=
  first.zipIdx.map fun ((kind, _), i) => (secondKind kind, .columnReference (k + i))

/-- The output expressions of the measures, over the columns from `inIdx` on. -/
def outputs : List (AggregationKind × Expr V) → (inIdx : Nat) → List (Expr V)
  | [], _ => []
  | (kind, _) :: values, inIdx =>
    if kind = .mean then
      .binaryOp .trueDiv (.columnReference inIdx) (.columnReference (inIdx + 1)) ::
        outputs values (inIdx + 2)
    else .columnReference inIdx :: outputs values (inIdx + 1)

@[simp] lemma length_secondValues (k : Nat) (first : List (AggregationKind × Expr V)) :
    (secondValues k first).length = first.length := by
  simp [secondValues]

variable {first : List (AggregationKind × Expr V)}

@[simp] lemma secondValues_eq_nil {k : Nat} : secondValues k first = [] ↔ first = [] := by
  simp [secondValues]

lemma isFirst_of_mem_firstValues {value v : AggregationKind × Expr V}
    (hvalue : IsSupported value.1) (hv : v ∈ firstValues value) : IsFirst v.1 := by
  rcases hvalue with hmean | hfst
  · simp only [firstValues, hmean, if_true, mem_cons, not_mem_nil, or_false] at hv
    rcases hv with rfl | rfl <;> simp [IsFirst]
  · have hmean : value.1 ≠ .mean := fun h => by simp [IsFirst, h] at hfst
    simp only [firstValues, hmean, if_false, mem_singleton] at hv
    rwa [hv]

lemma isFirst_of_mem_secondValues (k : Nat) (hfst : ∀ v ∈ first, IsFirst v.1)
    {v : AggregationKind × Expr V} (hv : v ∈ secondValues k first) : IsFirst v.1 := by
  obtain ⟨x, hx, rfl⟩ := mem_map.1 hv
  have hkind := hfst _ (fst_mem_of_mem_zipIdx hx)
  simp only [IsFirst, mem_cons, not_mem_nil, or_false] at hkind
  rcases hkind with h | h | h | h | h <;> simp [h, secondKind, IsFirst]

variable {values : List (AggregationKind × Expr V)}

lemma firstValues_eq_nil : values.flatMap firstValues = [] ↔ values = [] := by
  cases values with
  | nil => simp
  | cons value values =>
    simp only [firstValues, flatMap_cons]
    split_ifs <;> simp

lemma outputs_eq_nil {inIdx : Nat} : outputs values inIdx = [] ↔ values = [] := by
  cases values with
  | nil => simp [outputs]
  | cons value values =>
    simp only [outputs]
    split_ifs <;> simp

@[simp] lemma length_outputs (values : List (AggregationKind × Expr V)) (inIdx : Nat) :
    (outputs values inIdx).length = values.length := by
  induction values generalizing inIdx with
  | nil => rfl
  | cons value values ih =>
    simp only [outputs]
    split_ifs <;> simp [ih]

variable (ordinal : AggregationKind → Nat)

lemma firstValues_eq {value : AggregationKind × Expr V}
    (h : IsSupported value.1) : firstAggregationValues ordinal value = .ok (firstValues value) := by
  obtain ⟨kind, e⟩ := value
  simp only [IsSupported, IsFirst, mem_cons, not_mem_nil, or_false] at h
  rcases h with rfl | rfl | rfl | rfl | rfl | rfl <;> rfl

lemma secondKind_eq
    (h : IsFirst kind) : getSecondAggregationKind ordinal kind = .ok (secondKind kind) := by
  simp only [IsFirst, mem_cons, not_mem_nil, or_false] at h
  rcases h with rfl | rfl | rfl | rfl | rfl <;> rfl

lemma postprocess_eq (h : ∀ v ∈ values, IsSupported v.1)
    (inIdx : Nat) : postprocess ordinal values inIdx = .ok (outputs values inIdx) := by
  induction values generalizing inIdx with
  | nil => rfl
  | cons value values ih =>
    obtain ⟨kind, e⟩ := value
    have hkind : IsSupported kind := h (kind, e) (by simp)
    have ih := ih fun v hv => h v (by simp [hv])
    simp only [IsSupported, IsFirst, mem_cons, not_mem_nil, or_false] at hkind
    rcases hkind with rfl | rfl | rfl | rfl | rfl | rfl <;>
      simp only [postprocess, ih] <;> rfl

/-- The task generated for a relation whose measures are all supported. -/
lemma visitConcatenate_eq (tasks : List (Task V))
    (keys : List (Expr V)) (hvals : ∀ v ∈ values, IsSupported v.1) (condition : Option (Expr V)) :
    visitConcatenateAggregate ordinal tasks keys values condition = .ok (.project (.aggregate
        (concatenate (tasks.map fun task =>
          .aggregate task keys (values.flatMap firstValues) condition))
        ((range keys.length).map .columnReference)
        (secondValues keys.length (values.flatMap firstValues)) none)
      ((range keys.length).map .columnReference ++ outputs values keys.length)) := by
  have hfst : values.mapM (firstAggregationValues ordinal) = .ok (values.map firstValues) :=
    Fallible.mapM_eq_ok fun v hv => firstValues_eq ordinal (hvals v hv)
  have hsnd : (values.map firstValues).flatten.zipIdx.mapM (fun x =>
      (getSecondAggregationKind ordinal x.1.1).map fun kind =>
        (kind, Expr.columnReference (keys.length + x.2))) =
      .ok (secondValues keys.length (values.flatMap firstValues)) := by
    refine Fallible.mapM_eq_ok fun x hx => ?_
    obtain ⟨l, hl, hx⟩ := mem_flatten.1 (fst_mem_of_mem_zipIdx hx)
    obtain ⟨value, hvalue, rfl⟩ := mem_map.1 hl
    rw [secondKind_eq ordinal (isFirst_of_mem_firstValues (hvals value hvalue) hx)]
    rfl
  simp only [visitConcatenateAggregate, hfst, postprocess_eq ordinal hvals, bind, Except.bind, hsnd]
  rfl

end Measures

end Gqe.Aggregation
