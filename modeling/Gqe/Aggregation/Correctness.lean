import Gqe.Aggregation.Properties

/-!
# Aggregating in two phases is grouping once

The task graph of a `concatenate_aggregate` relation, whatever the partitions, has the rows that
grouping the whole table once has.
-/

namespace Gqe.Aggregation

open Grouping List Table Expr

variable {V : Type*} [LinearOrder V] [AddCommMonoidWithOne V] (R : Reductions V) (C : Cudf V)

/-! ### Grouping once -/

def measureType (keys : List (Expr V)) (τ : Nat → DataType) (value : AggregationKind × Expr V) :
    DataType :=
  if keys = [] then reduceType R τ value else groupbyType R τ value

/-- The type of the column in which the two phases keep a measure of the first aggregation. -/
def columnType (keys : List (Expr V)) (τ : Nat → DataType) (value : AggregationKind × Expr V) :
    DataType :=
  R.targetType (measureType R keys τ value) (secondKind value.1)

/-- A measure of the rows of a group. A mean is its sum divided by its number of values. -/
def measure (keys : List (Expr V)) (τ : Nat → DataType) (rows : List (Row V))
    (value : AggregationKind × Expr V) : Option V :=
  if value.1 = .mean then
    C.binaryOp .trueDiv (some (columnType R keys τ (.sum, value.2)))
      (some (columnType R keys τ (.countValid, value.2)))
      (R.reduce .sum (evalColumn C τ rows value.2))
      (R.reduce .countValid (evalColumn C τ rows value.2))
  else R.reduce value.1 (evalColumn C τ rows value.2)

/-- The rows of the aggregation of a whole table: one for each key, and one for the whole table if
there are no keys. A table without columns has no rows. -/
def groupOnce (keys : List (Expr V)) (values : List (AggregationKind × Expr V))
    (τ : Nat → DataType) (rows : List (Row V)) : List (Row V) :=
  if keys = [] then
    if values = [] then [] else [values.map (measure R C keys τ rows)]
  else
    aggregate id (keyOf C τ keys) (fun key rows => key ++ values.map (measure R C keys τ rows)) rows

/-! ### Tasks -/

@[simp] def aggregateRows (keys : List (Expr V)) (values : List (AggregationKind × Expr V))
    (τ : Nat → DataType) (rows : List (Row V)) : List (Row V) :=
  if keys = [] then if values = [] then [] else [groupRow R C τ values [] rows]
  else groupRows R C τ keys values rows

def aggregateTypes (keys : List (Expr V)) (values : List (AggregationKind × Expr V))
    (τ : Nat → DataType) : List DataType :=
  keys.map (fun e => (e.dataType τ).getD .empty) ++ values.map (measureType R keys τ)

variable {condition : Option (Expr V)} {values : List (AggregationKind × Expr V)}

lemma executeAggregate_eq (keys : List (Expr V)) (hvals : ∀ v ∈ values, IsFirst v.1)
    (hcond : keys = [] → condition = none) (t : Table V) :
    ∃ u, executeAggregate R C keys values condition t = .ok u ∧
      u.types = aggregateTypes R keys values t.typeOf ∧
      u.rows = aggregateRows R C keys values t.typeOf (activeRows C condition t) := by
  by_cases hkeys : keys = []
  · have hfind : values.find? (fun value => !isReduceAggregation value.1) = none := by
      refine find?_eq_none.2 fun v hv => ?_
      have := hvals v hv
      simp only [IsFirst, mem_cons, not_mem_nil, or_false] at this
      rcases this with h | h | h | h | h <;> simp [h, isReduceAggregation]
    have hrow : ∀ rows,
        reduceRow R C t.typeOf values rows = groupRow R C t.typeOf values [] rows := by
      simp [reduceRow, groupRow, reduceColumn_eq]
    simp only [executeAggregate, hkeys, hcond hkeys, hfind]
    refine ⟨_, rfl, by simp [aggregateTypes, measureType], ?_⟩
    simp [build, activeRows, hrow]
  · simp only [executeAggregate, hkeys, find?_not_isGroupbyAggregation hvals]
    refine ⟨_, rfl, by simp [aggregateTypes, measureType, hkeys], ?_⟩
    simp [build, hkeys]

variable {keys : List (Expr V)} {parts : List (Table V)} {tasks : List (Task V)}
  {τ : Nat → DataType}

lemma executeList_aggregate (hparts : Task.executeList R C tasks = .ok parts)
    (hvals : ∀ v ∈ values, IsFirst v.1) (hcond : keys = [] → condition = none)
    (hτ : ∀ t ∈ parts, t.typeOf = τ) :
    ∃ us,
      Task.executeList R C (tasks.map fun task => .aggregate task keys values condition) = .ok us ∧
      us.length = parts.length ∧ (∀ u ∈ us, u.types = aggregateTypes R keys values τ) ∧
      us.flatMap (·.rows) =
        (parts.map (activeRows C condition)).flatMap (aggregateRows R C keys values τ) := by
  induction tasks generalizing parts with
  | nil =>
    obtain rfl : [] = parts := by simpa [Task.executeList] using hparts
    exact ⟨[], rfl, rfl, by simp, rfl⟩
  | cons task tasks ih =>
    simp only [Task.executeList, bind, Except.bind, pure, Except.pure] at hparts
    cases ht : task.execute R C with
    | error => simp [ht] at hparts
    | ok t =>
      cases hts : Task.executeList R C tasks with
      | error => simp [ht, hts] at hparts
      | ok ts =>
        obtain rfl : t :: ts = parts := by simpa [ht, hts] using hparts
        obtain ⟨us, hus, hlen, htys, hrows⟩ := ih hts fun u hu => hτ u (by simp [hu])
        obtain ⟨u, hu, hutypes, hurows⟩ := executeAggregate_eq R C keys hvals hcond t
        obtain rfl := hτ t (by simp)
        refine ⟨u :: us, ?_, by simp [hlen], by simpa [hutypes] using htys, ?_⟩
        · simp only [map_cons, Task.executeList, Task.execute, ht, hus, bind, Except.bind, hu]
          rfl
        · simp [hurows, hrows]

omit [AddCommMonoidWithOne V] [LinearOrder V] in
lemma concatenateTables_eq {us : List (Table V)} (hne : us ≠ []) {types : List DataType}
    (htys : ∀ u ∈ us, u.types = types) :
    ∃ u, concatenateTables us = .ok u ∧ u.types = types ∧ u.rows = us.flatMap (·.rows) := by
  obtain ⟨t, ts, rfl⟩ := exists_cons_of_ne_nil hne
  obtain rfl := htys t (by simp)
  have hts : ∀ u ∈ ts, u.types = t.types := fun u hu => htys u (by simp [hu])
  rw [concatenateTables, dif_pos hts]
  by_cases ht : t.types = []
  · have hrows : ∀ u ∈ t :: ts, u.rows = [] := fun u hu =>
      u.rows_of_no_columns ((htys u hu).trans ht)
    simpa [build, ht] using hrows
  · simp [build, ht]

lemma execute_concatenate {us : List (Table V)} {types : List DataType}
    (hus : Task.executeList R C tasks = .ok us) (hne : us ≠ []) (htys : ∀ u ∈ us, u.types = types) :
    ∃ u, (concatenate tasks).execute R C = .ok u ∧ u.types = types ∧
      u.rows = us.flatMap (·.rows) := by
  have hmany : ∃ u, (Task.concatenate tasks).execute R C = .ok u ∧ u.types = types ∧
      u.rows = us.flatMap (·.rows) := by
    simpa only [Task.execute, hus, bind, Except.bind] using concatenateTables_eq hne htys
  match tasks, hus, hmany with
  | [task], hus, _ =>
    simp only [Task.executeList, bind, Except.bind, pure, Except.pure] at hus
    cases ht : task.execute R C with
    | error => simp [ht] at hus
    | ok t =>
      obtain rfl : [t] = us := by simpa [ht] using hus
      exact ⟨t, ht, htys t (by simp), by simp⟩
  | _ :: _ :: _, _, hmany => exact hmany

/-! ### The second aggregation -/

omit [AddCommMonoidWithOne V] in
lemma keyOf_range (τ : Nat → DataType) (key values : Row V) :
    keyOf C τ ((range key.length).map .columnReference) (key ++ values) = key := by
  refine ext_getElem (by simp [keyOf]) fun i _ hi => ?_
  simp [keyOf, Row.col, getElem?_append_left hi, hi]

variable {first : List (AggregationKind × Expr V)}

/-- The second aggregation of the first aggregations of the parts of a group. -/
lemma groupRow_secondValues (τ τ' : Nat → DataType) (hfst : ∀ v ∈ first, IsFirst v.1) (key : Row V)
    {parts : List (List (Row V))} (hparts : parts ≠ []) :
    groupRow R C τ' (secondValues key.length first) key (parts.map (groupRow R C τ first key)) =
      groupRow R C τ first key parts.flatten := by
  refine congrArg (key ++ ·) (ext_getElem (by simp) fun i hi _ => ?_)
  have hi : i < first.length := by simpa using hi
  have hcol : ∀ rows, Row.col (groupRow R C τ first key rows) (key.length + i) =
      R.reduce first[i].1 (evalColumn C τ rows first[i].2) := by
    intro rows
    rw [groupRow, Row.col_append_right]
    simp [Row.col, hi]
  have hcolumn : evalColumn C τ' (parts.map (groupRow R C τ first key))
      (.columnReference (key.length + i)) =
      (parts.map fun rows => evalColumn C τ rows first[i].2).map (R.reduce first[i].1) := by
    simp [evalColumn, hcol]
  have hflat : (parts.map fun rows => evalColumn C τ rows first[i].2).flatten =
      evalColumn C τ parts.flatten first[i].2 := by
    simp [evalColumn]
  simp only [secondValues, getElem_map, getElem_zipIdx, Nat.zero_add, hcolumn]
  rw [reduce_secondKind R (hfst _ (getElem_mem hi)) (by simpa using hparts), hflat]

/-- The second aggregation of the first aggregations of the parts of a table. -/
lemma aggregateRows_secondValues (τ τ' : Nat → DataType) (keys : List (Expr V))
    (hfst : ∀ v ∈ first, IsFirst v.1) {parts : List (List (Row V))} (hparts : parts ≠ []) :
    (aggregateRows R C ((range keys.length).map .columnReference)
      (secondValues keys.length first) τ' (parts.flatMap (aggregateRows R C keys first τ))).Perm
      (aggregateRows R C keys first τ parts.flatten) := by
  by_cases hkeys : keys = []
  · subst hkeys
    by_cases hnil : first = []
    · simp [hnil]
    · have hrows : aggregateRows R C [] first τ = fun rows => [groupRow R C τ first [] rows] :=
        funext fun rows => by simp [hnil]
      have hrow := groupRow_secondValues R C τ τ' hfst [] hparts
      have hmap : parts.flatMap (fun rows => [groupRow R C τ first [] rows]) =
          parts.map (groupRow R C τ first []) := map_eq_flatMap.symm
      simpa [hrows, hmap, hnil] using hrow
  · have hrows : ∀ keys' : List (Expr V), keys' ≠ [] → ∀ values τ,
        aggregateRows R C keys' values τ = groupRows R C τ keys' values :=
      fun keys' h values τ => funext fun rows => if_neg h
    have hlen : ∀ r, (keyOf C τ keys r).length = keys.length := fun r => by simp [keyOf]
    rw [hrows _ (by simpa using hkeys), hrows _ hkeys]
    refine aggregate_flatMap_perm R.groupOrder_perm R.groupOrder_perm
      (fun r rows => ?_) (fun r parts hne => ?_) parts
    · rw [← hlen r]
      exact keyOf_range C τ' _ _
    · rw [← hlen r]
      exact groupRow_secondValues R C τ τ' hfst _ hne

/-! ### The output expressions -/

variable {rows : List (Row V)}

lemma map_eval_outputs {τ' : Nat → DataType}
    {r : Row V} (values : List (AggregationKind × Expr V)) (inIdx : Nat)
    (hcol : ∀ j, r.col (inIdx + j) = ((values.flatMap firstValues).map fun v =>
      R.reduce v.1 (evalColumn C τ rows v.2)).getD j none) (htype : ∀ j, τ' (inIdx + j) =
      ((values.flatMap firstValues).map (columnType R keys τ)).getD j .empty) :
    (outputs values inIdx).map (·.eval C τ' r) = values.map (measure R C keys τ rows) := by
  induction values generalizing inIdx with
  | nil => rfl
  | cons value values ih =>
    obtain ⟨kind, e⟩ := value
    by_cases hkind : kind = .mean
    · have hfst : firstValues (kind, e) = [(.sum, e), (.countValid, e)] := by
        simp [firstValues, hkind]
      simp only [flatMap_cons, hfst] at hcol htype
      have ih := ih (inIdx + 2)
        (fun j => by simpa [Nat.add_assoc, Nat.add_comm 2] using hcol (2 + j))
        (fun j => by simpa [Nat.add_assoc, Nat.add_comm 2] using htype (2 + j))
      have hsum := hcol 0
      have hcnt := hcol 1
      have htsum := htype 0
      have htcount := htype 1
      simp at hsum hcnt htsum htcount
      simp [outputs, hkind, ih, measure, hsum, hcnt, htsum, htcount]
    · have hfst : firstValues (kind, e) = [(kind, e)] := by simp [firstValues, hkind]
      simp only [flatMap_cons, hfst] at hcol htype
      have ih := ih (inIdx + 1)
        (fun j => by simpa [Nat.add_assoc, Nat.add_comm 1] using hcol (1 + j))
        (fun j => by simpa [Nat.add_assoc, Nat.add_comm 1] using htype (1 + j))
      have hvalue := hcol 0
      simp at hvalue
      simp [outputs, hkind, ih, measure, hvalue]

/-- The second aggregation counts nothing, so that the type of a measure does not depend on
whether there are keys. -/
lemma measureType_secondKind (keys : List (Expr V)) (τ : Nat → DataType) {kind : AggregationKind}
    (hkind : IsFirst kind) (e : Expr V) : measureType R keys τ (secondKind kind, e) =
      R.targetType ((e.dataType τ).getD .empty) (secondKind kind) := by
  simp only [IsFirst, mem_cons, not_mem_nil, or_false] at hkind
  rcases hkind with rfl | rfl | rfl | rfl | rfl <;> exact ite_self _

lemma map_type_secondValues {τ' : Nat → DataType} (hfst : ∀ v ∈ first, IsFirst v.1)
    (hτ' : ∀ j, τ' (keys.length + j) = (first.map (measureType R keys τ)).getD j .empty)
    (keys' : List (Expr V)) : (secondValues keys.length first).map (measureType R keys' τ') =
      first.map (columnType R keys τ) := by
  refine ext_getElem (by simp) fun i hi _ => ?_
  have hi : i < first.length := by simpa using hi
  have htype := hτ' i
  simp only [getD_eq_getElem?_getD, getElem?_map, getElem?_eq_getElem hi,
    Option.map_some, Option.getD_some] at htype
  simp only [secondValues, getElem_map, getElem_zipIdx, Nat.zero_add, columnType]
  rw [measureType_secondKind R keys' τ' (hfst _ (getElem_mem hi)), dataType, htype,
    Option.getD_some]

variable {t : Table V}

lemma typeOf_measure (ht : t.types = aggregateTypes R keys values τ) (j : Nat) :
    t.typeOf (keys.length + j) = (values.map (measureType R keys τ)).getD j .empty := by
  rw [typeOf, ht, aggregateTypes, getD_eq_getElem?_getD, getElem?_append_right (by simp)]
  simp

section

variable (hvals : ∀ v ∈ values.flatMap firstValues, IsFirst v.1)
include hvals

section

variable {u w : Table V} (hu : u.types = aggregateTypes R keys (values.flatMap firstValues) τ)
  (hw : w.types = aggregateTypes R ((range keys.length).map .columnReference)
    (secondValues keys.length (values.flatMap firstValues)) u.typeOf)
include hu hw

lemma map_eval_output_row {key : Row V} (hkey : key.length = keys.length) (rows : List (Row V)) :
    ((range keys.length).map columnReference ++ outputs values keys.length).map
        (fun e : Expr V =>
          e.eval C w.typeOf (groupRow R C τ (values.flatMap firstValues) key rows)) =
      key ++ values.map (measure R C keys τ rows) := by
  have hwtype : ∀ j, w.typeOf (keys.length + j) =
      ((values.flatMap firstValues).map (columnType R keys τ)).getD j .empty := by
    intro j
    rw [← map_type_secondValues R hvals (typeOf_measure R hu)]
    simpa using typeOf_measure R hw j
  rw [map_append]
  refine congrArg₂ _ ?_ (map_eval_outputs R C values _ (fun j => ?_) hwtype)
  · rw [← hkey]
    exact keyOf_range C w.typeOf key _
  · rw [← hkey, groupRow, Row.col_append_right]
    rfl

/-- The project task turns the rows of the second aggregation into those of grouping once. -/
lemma project_rows_perm
    (hrows : w.rows.Perm (aggregateRows R C keys (values.flatMap firstValues) τ rows)) :
    (w.project C ((range keys.length).map .columnReference ++
      outputs values keys.length)).rows.Perm (groupOnce R C keys values τ rows) := by
  have hrow {key : Row V} (hkey : key.length = keys.length) :=
    map_eval_output_row R C hvals hu hw hkey
  by_cases hnil : keys = [] ∧ values = []
  · obtain ⟨rfl, rfl⟩ := hnil
    simp [project, build, outputs, groupOnce]
  · have hproject : (w.project C ((range keys.length).map .columnReference ++
        outputs values keys.length)).rows = w.rows.map fun r =>
          ((range keys.length).map columnReference ++ outputs values keys.length).map
            fun e : Expr V => e.eval C w.typeOf r := by
      simp [project, build, outputs_eq_nil, hnil]
    rw [hproject]
    refine (hrows.map _).trans ?_
    by_cases hkeys : keys = []
    · have hvals : values ≠ [] := fun h => hnil ⟨hkeys, h⟩
      have hfst : values.flatMap firstValues ≠ [] := mt firstValues_eq_nil.1 hvals
      rw [aggregateRows, if_pos hkeys, if_neg hfst, groupOnce, if_pos hkeys, if_neg hvals,
        map_singleton, hrow (by simp [hkeys]), nil_append]
    · rw [aggregateRows, if_neg hkeys, groupOnce, if_neg hkeys, groupRows, aggregate, map_map]
      refine (List.Perm.of_eq (map_congr_left fun key hkey => ?_)).trans
        ((R.groupOrder_perm _).map _)
      obtain ⟨r, -, rfl⟩ := mem_map.1 ((mem_order_dedup R.groupOrder_perm).1 hkey)
      exact hrow (by simp [keyOf]) _

end

end

/-! ### Splitting a table -/

/-- The rows of a table, split into one or more partitions. -/
structure IsSplit (parts : List (Table V)) (t : Table V) : Prop where
  ne_nil : parts ≠ []
  types_eq : ∀ p ∈ parts, p.types = t.types
  rows_perm : (parts.flatMap (·.rows)).Perm t.rows

omit [LinearOrder V] [AddCommMonoidWithOne V] in
lemma IsSplit.typeOf_eq (h : IsSplit parts t) {p : Table V}
    (hp : p ∈ parts) : p.typeOf = t.typeOf :=
  funext fun i => by rw [typeOf, typeOf, h.types_eq p hp]

omit [AddCommMonoidWithOne V] in
lemma activeRows_perm (h : IsSplit parts t) (condition : Option (Expr V)) :
    (parts.map (activeRows C condition)).flatten.Perm (activeRows C condition t) := by
  cases condition with
  | none => exact h.rows_perm
  | some c =>
    have hparts : parts.map (activeRows C (some c)) =
        parts.map fun p => p.rows.filter fun r => c.IsTrue C t.typeOf r :=
      map_congr_left fun p hp => by rw [activeRows, h.typeOf_eq hp]
    rw [hparts, ← flatMap_def, ← filter_flatMap]
    exact h.rows_perm.filter _

lemma measure_perm (keys : List (Expr V)) (τ : Nat → DataType) {value : AggregationKind × Expr V}
    (hvalue : IsSupported value.1) {rows' : List (Row V)} (h : rows.Perm rows') :
    measure R C keys τ rows value = measure R C keys τ rows' value := by
  have hcol : (evalColumn C τ rows value.2).Perm (evalColumn C τ rows' value.2) := h.map _
  by_cases hmean : value.1 = .mean
  · simp only [measure, hmean, if_true]
    rw [reduce_perm R (by decide) hcol, reduce_perm R (by decide) hcol]
  · simp only [measure, hmean]
    exact reduce_perm R (hvalue.resolve_left hmean) hcol

lemma groupOnce_perm (hvals : ∀ v ∈ values, IsSupported v.1) {rows' : List (Row V)}
    (h : rows.Perm rows') :
    (groupOnce R C keys values τ rows).Perm (groupOnce R C keys values τ rows') := by
  have hmeas : ∀ {l l' : List (Row V)}, l.Perm l' →
      values.map (measure R C keys τ l) = values.map (measure R C keys τ l') := fun hl =>
    map_congr_left fun v hv => measure_perm R C keys τ (hvals v hv) hl
  by_cases hkeys : keys = []
  · rw [groupOnce, groupOnce, if_pos hkeys, if_pos hkeys, hmeas h]
  · rw [groupOnce, groupOnce, if_neg hkeys, if_neg hkeys]
    exact aggregate_perm (fun l => .refl l) (fun l => .refl l)
      (fun key l l' hl => by rw [hmeas hl]) h

/-- The result of an aggregation in two phases, with a column for each key and each measure. -/
lemma exists_concatenate (hparts : Task.executeList R C tasks = .ok parts)
    (hsplit : IsSplit parts t) (keys : List (Expr V)) (hvals : ∀ v ∈ values, IsSupported v.1)
    (hcond : keys = [] → condition = none) :
    ∃ task result, visitConcatenateAggregate R.ordinal tasks keys values condition = .ok task ∧
      task.execute R C = .ok result ∧ result.types.length = keys.length + values.length ∧
      result.rows.Perm (groupOnce R C keys values t.typeOf (activeRows C condition t)) := by
  have hfst : ∀ v ∈ values.flatMap firstValues, IsFirst v.1 := by
    intro v hv
    obtain ⟨value, hvalue, hv⟩ := mem_flatMap.1 hv
    exact isFirst_of_mem_firstValues (hvals value hvalue) hv
  obtain ⟨us, hus, hlen, hustypes, husrows⟩ :=
    executeList_aggregate R C hparts hfst hcond fun p => hsplit.typeOf_eq
  have hne : us ≠ [] := fun h => hsplit.ne_nil (length_eq_zero_iff.1 (by simp [← hlen, h]))
  obtain ⟨u, hu, hutypes, hurows⟩ := execute_concatenate R C hus hne hustypes
  obtain ⟨w, hw, hwtypes, hwrows⟩ := executeAggregate_eq R C
    ((range keys.length).map .columnReference)
    (fun _ => isFirst_of_mem_secondValues keys.length hfst) (fun _ => rfl) u
  refine ⟨_, w.project C ((range keys.length).map .columnReference ++
    outputs values keys.length),
    visitConcatenate_eq R.ordinal tasks keys hvals condition, ?_, ?_, ?_⟩
  · simp only [Task.execute, hu, bind, Except.bind, hw]
    rfl
  · simp [project]
  · refine (project_rows_perm R C hfst hutypes hwtypes ?_).trans
      (groupOnce_perm R C hvals (activeRows_perm C hsplit condition))
    rw [hwrows, activeRows, hurows, husrows]
    exact aggregateRows_secondValues R C _ _ keys hfst (by simpa using hsplit.ne_nil)

/-- **Aggregating in two phases.** -/
theorem execute_concatenateAggregate {tasks : List (Task V)} {parts : List (Table V)}
    (hparts : Task.executeList R C tasks = .ok parts) {t : Table V} (hsplit : IsSplit parts t)
    (keys : List (Expr V)) {values : List (AggregationKind × Expr V)}
    (hvalues : ∀ v ∈ values, IsSupported v.1) {condition : Option (Expr V)}
    (hcondition : keys = [] → condition = none) :
    ∃ task result, visitConcatenateAggregate R.ordinal tasks keys values condition = .ok task ∧
      task.execute R C = .ok result ∧
      result.rows.Perm (groupOnce R C keys values t.typeOf (activeRows C condition t)) := by
  obtain ⟨task, result, htask, hresult, -, hrows⟩ :=
    exists_concatenate R C hparts hsplit keys hvalues hcondition
  exact ⟨task, result, htask, hresult, hrows⟩

def Reductions.integers : Reductions Int where
  reduce kind l :=
    match kind with
    | .sum => if l.reduceOption = [] then none else some l.reduceOption.sum
    | .min => l.reduceOption.min?
    | .max => l.reduceOption.max?
    | .countValid => some l.reduceOption.length
    | .countAll => some l.length
    | _ => none
  targetType t kind :=
    match kind with
    | .sum => .int64
    | .countValid | .countAll => .int32
    | .mean => .float64
    | _ => t
  ordinal _ := 0
  groupOrder keys := keys.reverse
  groupOrder_perm keys := keys.reverse_perm
  reduce_sum _ := rfl
  reduce_min _ := rfl
  reduce_max _ := rfl
  reduce_countValid _ := rfl
  reduce_countAll _ := rfl

/-- A table with a NULL key and a NULL value. -/
def sales : Table Int where
  types := [.int64, .int64]
  rows := [[some 1, some 5], [none, some 7], [some 1, none], [none, some 1]]
  length_row := by decide
  rows_of_no_columns := by decide

/-- The same rows in three partitions, one of them empty. -/
def salesParts : List (Table Int) :=
  [{ types := [.int64, .int64], rows := [[none, some 7], [some 1, some 5]],
     length_row := by decide, rows_of_no_columns := by decide },
   { types := [.int64, .int64], rows := [], length_row := by decide,
     rows_of_no_columns := by decide },
   { types := [.int64, .int64], rows := [[some 1, none], [none, some 1]],
     length_row := by decide, rows_of_no_columns := by decide }]

theorem execute_salesParts :
    ∃ task result, visitConcatenateAggregate (fun _ => 0) (salesParts.map .input)
        [.columnReference 0] [(.mean, .columnReference 1), (.countAll, .columnReference 1)] none =
          .ok task ∧ task.execute .integers .integers = .ok result ∧
      result.rows.Perm [[some 1, some 5, some 2], [none, some 4, some 2]] :=
  have hparts : Task.executeList .integers .integers (salesParts.map .input) = .ok salesParts := rfl
  have hsplit : IsSplit salesParts sales := ⟨by decide, by decide, by decide⟩
  execute_concatenateAggregate .integers .integers hparts hsplit [.columnReference 0]
    (by simp [IsSupported, IsFirst]) (by simp)

end Gqe.Aggregation
