import Gqe.Window.Lowering

/-!
# Windows without an order

What the aggregation of the input, joined back to it, makes of a window without an order: every row
of the input without a NULL among its partition keys, with the aggregate of its partition. Rows with
a NULL are lost, since the join condition is an equality.
-/

namespace Gqe.Window

open Join Aggregation Fallible List Row Except

variable {V : Type} {keys : List (Expr V)}

/-! ### The tasks -/

def single (t : Table V) : Partitions V where
  types := t.types
  parts := [t]
  nonempty := cons_ne_nil t []
  types_eq := by simp

@[simp] lemma whole_single (t : Table V) : (single t).whole = t := by
  cases t
  simp [single, Partitions.whole]

/-- An exception of the tasks of an aggregation. -/
def orThrow {α : Type} (x : Except String α) : Except Failure α := x.mapError .throws

section Run

variable [LinearOrder V] [AddCommMonoidWithOne V] (R : Reductions V) (J : CudfJoins V)

/-- What `aggregate_task::execute` evaluates on a part of the input. -/
def evaluateAggregation (C : Cudf V) (keys : List (Expr V))
    (values : List (AggregationKind × Expr V)) (t : Table V) : Except Failure Unit := do
  let _ ← evaluateExpressions C t 0 (values.map (·.2))
  let _ ← evaluateExpressions C t 0 keys
  .ok ()

/-- The results of the tasks of an aggregation of an input that is joined to the input. -/
def runAggregateJoin (keys : List (Expr V)) (values : List (AggregationKind × Expr V))
    (join : BroadcastJoin V) (input : Partitions V) : Except Failure (List (TaskResult V)) := do
  let task ← orThrow (visitConcatenateAggregate R.ordinal (input.parts.map .input) keys values none)
  let _ ← input.parts.mapM (evaluateAggregation J.expressions keys values)
  let aggregates ← orThrow (task.execute R J.expressions)
  join.run J input (single aggregates)

/-! ### The purpose of a window -/

/-- A row with the aggregates of its partition. NULLs are a key like any other. -/
def windowRow (C : Cudf V) (keys : List (Expr V)) (values : List (AggregationKind × Expr V))
    (t : Table V) (r : Row V) : Row V :=
  let key := keyOf C t.typeOf keys
  r ++ values.map (measure R C keys t.typeOf (Grouping.group key t.rows (key r)))

/-- Every row of the input with the value of the window function on its partition. -/
def windowRows (C : Cudf V) (window : LogicalWindow V) (t : Table V) : List (Row V) :=
  t.rows.map
    (windowRow R C window.partitionBy (window.arguments.map (window.aggrFunc, ·)) t)

end Run

/-! ### The join condition -/

def partitionKeys (numInputCols : Nat) (keys : List (Expr V)) : JoinKeys V where
  leftKeyExprs := keys
  rightKeyExprs := (range keys.length).map fun i => .columnReference (numInputCols + i)
  compareNulls := some .unequal

lemma parseJoinCondition_foldl {condition : Expr V} {keys : JoinKeys V}
    (h : parseJoinCondition {} condition = .ok keys) (hnulls : keys.compareNulls = some .unequal)
    (numInputCols : Nat) (rest : List (Expr V × Nat)) :
    parseJoinCondition {} (rest.foldl (fun condition key =>
      .binaryOp .nullLogicalAnd condition (keyEquality numInputCols key)) condition) =
        .ok { keys with
        leftKeyExprs := keys.leftKeyExprs ++ rest.map (·.1)
        rightKeyExprs := keys.rightKeyExprs ++
          rest.map fun key => .columnReference (numInputCols + key.2) } := by
  induction rest generalizing condition keys with
  | nil => simp [h]
  | cons key rest ih =>
    have hstep : parseJoinCondition {} (.binaryOp .nullLogicalAnd condition
        (keyEquality numInputCols key)) = .ok { keys with
          leftKeyExprs := keys.leftKeyExprs ++ [key.1]
          rightKeyExprs := keys.rightKeyExprs ++ [.columnReference (numInputCols + key.2)] } := by
      simp [parseJoinCondition, h, keyEquality, JoinKeys.addKeys, hnulls]
    rw [foldl_cons, ih hstep hnulls]
    simp

lemma parse_partitionCondition (numInputCols : Nat) (key : Expr V)
    (keys : List (Expr V)) : parseJoinCondition {} (partitionCondition numInputCols key keys) =
      .ok (partitionKeys numInputCols (key :: keys)) := by
  have hfst : parseJoinCondition {} (keyEquality numInputCols (key, 0)) = .ok
      { leftKeyExprs := [key], rightKeyExprs := [.columnReference numInputCols],
        compareNulls := some .unequal } := by
    simp [keyEquality, parseJoinCondition, JoinKeys.addKeys]
  rw [partitionCondition, parseJoinCondition_foldl hfst rfl]
  congr 2
  · simp
  · apply ext_getElem
    · simp
    · intro i _ _
      cases i <;> simp [Nat.add_comm]

/-! ### Matching keys -/

section Matching

variable [LinearOrder V]

lemma keysEqual_unequal_iff {key key' : Row V} (hlen : key.length = key'.length) :
    keysEqual .unequal key key' ↔ none ∉ key ∧ key' = key := by
  unfold keysEqual
  induction key generalizing key' with
  | nil =>
    obtain rfl := length_eq_zero_iff.1 hlen.symm
    simp
  | cons a key ih =>
    cases key' with
    | nil => cases hlen
    | cons b key' =>
      have ih := ih (Nat.succ.inj hlen)
      rw [zip_cons_cons, all_cons, Bool.and_eq_true, ih]
      cases a with
      | none => simp [cellsEqual]
      | some v => simp [cellsEqual, eq_comm, and_left_comm]

variable {C : Cudf V} {types aggregateTypes : List DataType}

lemma keyOf_rightKeyExprs {key : Row V} (hkey : key.length = keys.length) (measures : Row V) :
    Join.keyOf C aggregateTypes types.length (partitionKeys types.length keys).rightKeyExprs
      (key ++ measures) = key := by
  simp only [Join.keyOf, partitionKeys, map_map, Function.comp_def, Expr.rename,
    Nat.add_sub_cancel_left]
  rw [← hkey]
  refine .trans (map_congr_left fun i hi => ?_) (select_range key)
  exact col_append_left (mem_range.1 hi)

lemma keyOf_leftKeyExprs {t : Table V} (r : Row V) :
    keyOf C t.types 0 keys r = keyOf C t.typeOf keys r := by
  apply map_congr_left
  intro e _
  exact Expr.eval_rename C (· - 0) t.typeOf t.typeOf r r e (fun _ _ => rfl) fun _ _ => rfl

lemma holds_partitionKeys {J : CudfJoins V} {t : Table V} (l r : Row V) (measures : Row V) :
    (partitionKeys t.types.length keys).holds J t.types aggregateTypes l
        (keyOf J.expressions t.typeOf keys r ++ measures) =
      (decide (none ∉ keyOf J.expressions t.typeOf keys l) &&
        decide (keyOf J.expressions t.typeOf keys r = keyOf J.expressions t.typeOf keys l)) := by
  have hlen : ∀ r, (keyOf J.expressions t.typeOf keys r).length = keys.length :=
    fun r => length_map _
  have hholds : ∀ r', (partitionKeys t.types.length keys).holds J t.types aggregateTypes l r' =
      keysEqual .unequal (keyOf J.expressions t.types 0 keys l) (keyOf J.expressions
        aggregateTypes t.types.length (partitionKeys t.types.length keys).rightKeyExprs r') :=
    fun r' => Bool.and_true _
  rw [hholds, keyOf_leftKeyExprs, keyOf_rightKeyExprs (hlen r), Bool.eq_iff_iff,
    keysEqual_unequal_iff ((hlen l).trans (hlen r).symm)]
  simp

end Matching

/-! ### The rows of the join -/

lemma select_append_concat (l key : Row V) (v : Option V) :
    select (l ++ (key ++ [v])) (range l.length ++ [l.length + key.length]) = l ++ [v] := by
  have hl : (range l.length).map (col (l ++ (key ++ [v]))) = l := by
    refine .trans (map_congr_left fun i hi => ?_) (select_range l)
    exact col_append_left (mem_range.1 hi)
  have hr : col (l ++ (key ++ [v])) (l.length + key.length) = v := by
    simp [col]
  rw [select, map_append, hl, map_singleton, hr]

section Rows

variable [LinearOrder V] [AddCommMonoidWithOne V] {R : Reductions V} {J : CudfJoins V}
  {value : AggregationKind × Expr V} {t aggregates : Table V}

/-- Rows without a NULL among their keys meet the aggregate of their partition, the
others nothing. -/
lemma rows_joinBy_partitionKeys (hkeys : keys ≠ [])
    (hrows : aggregates.rows.Perm (groupOnce R J.expressions keys [value] t.typeOf t.rows)) :
    (joinBy J (partitionKeys t.types.length keys) .inner
        (range t.types.length ++ [t.types.length + keys.length]) t aggregates).rows.Perm
      ((t.rows.filter fun r => none ∉ keyOf J.expressions t.typeOf keys r).map
        (windowRow R J.expressions keys [value] t)) := by
  set key := keyOf J.expressions t.typeOf keys
  set m := (partitionKeys t.types.length keys).holds J t.types aggregates.types
  rw [groupOnce, if_neg hkeys] at hrows
  have hinner := ListJoin.inner_perm m (.refl t.rows) hrows
  rw [ListJoin.inner_aggregate (fun k => decide (none ∉ k))
    fun l _ r _ => holds_partitionKeys l r _] at hinner
  rw [joinBy, rows_materialize_eq, if_neg (by simp)]
  refine ((hinner.map _).map _).trans (.of_eq ?_)
  rw [map_map, map_map]
  apply map_congr_left
  intro r hr
  have hlen : r.length = t.types.length := t.length_row r (mem_of_mem_filter hr)
  have hkey : (key r).length = keys.length := length_map _
  rw [← hlen, ← hkey]
  exact select_append_concat r (key r) _

end Rows

/-! ### Joins that fail -/

section Failures

variable [LinearOrder V] {J : CudfJoins V} {task : JoinTask V} {cache : Option (HashJoinImpl V)}
  {left right : Table V} {result : TaskResult V × Option (HashJoinImpl V)} {keys : JoinKeys V}

variable (h : task.execute J cache left right = .ok result)
include h

/-- Perfect hashing asks for unique keys on a side, of which the join of a window knows nothing. -/
lemma perfectHashing_of_execute (hpar : parseJoinCondition {} task.condition = .ok keys)
    (hpreds : keys.nonEqualityConditions = []) (hcache : task.hashMapCache = none)
    (hinner : task.joinType = .inner) : task.perfectHashing = false := by
  obtain ⟨evaluated, hadd, h⟩ := bind_eq_ok h
  obtain ⟨keys', hpar', hadd⟩ := bind_eq_ok hadd
  obtain rfl : keys' = keys := Except.ok.inj (hpar'.symm.trans hpar)
  obtain ⟨leftKeys, -, hadd⟩ := bind_eq_ok hadd
  obtain ⟨rightKeys, -, hadd⟩ := bind_eq_ok hadd
  obtain rfl := Except.ok.inj hadd
  obtain ⟨indices, hidxs, -⟩ := bind_eq_ok h
  by_contra hperf
  simp only [JoinTask.joinIndices, hcache, fallbackIndices, hpreds, equalityIndices, hinner,
    true_and, if_pos (Bool.eq_true_of_not_eq_false hperf)] at hidxs
  cases hnulls : keys'.getCompareNulls <;> simp [hnulls] at hidxs

lemma projection_lt_of_execute (hout : task.materializeOutput = true) :
    ∀ c ∈ task.projectionIndices, c < left.numColumns + right.numColumns := by
  obtain ⟨evaluated, -, h⟩ := bind_eq_ok h
  obtain ⟨indices, -, h⟩ := bind_eq_ok h
  by_contra hproj
  push Not at hproj
  simp only [materialize, bind, Except.bind] at h
  split_ifs at h

end Failures

/-! ### Lowered windows -/

variable {joinUseHashMapCache useJoinPerfectHashing : Bool}

lemma build_eq_aggregateJoin {numInputCols : Nat} {window : LogicalWindow V}
    {values : List (AggregationKind × Expr V)} {join : BroadcastJoin V}
    (h : build joinUseHashMapCache useJoinPerfectHashing numInputCols window =
      .ok (.aggregateJoin keys values join)) :
    keys = window.partitionBy ∧ keys ≠ [] ∧ values = window.arguments.map (window.aggrFunc, ·) ∧
      values.length ≤ 1 ∧ ∃ condition, join = windowJoin condition
        (range numInputCols ++ [numInputCols + keys.length]) joinUseHashMapCache
        useJoinPerfectHashing ∧
      parseJoinCondition {} condition = .ok (partitionKeys numInputCols keys) := by
  unfold build at h
  split at h
  · cases h
  split at h
  · rename_i key keys' hpartition _
    split_ifs at h with hargs
    obtain ⟨rfl, rfl, rfl⟩ := (LoweredWindow.aggregateJoin.injEq ..).to_iff.1 (ok.inj h)
    refine ⟨hpartition.symm, cons_ne_nil _ _, rfl, ?_, _, rfl,
      parse_partitionCondition _ _ _⟩
    rw [length_map]
    exact Nat.le_of_not_lt hargs
  · cases ok.inj h
  · cases h

variable {input : Partitions V}

lemma isSplit_whole : IsSplit input.parts input.whole :=
  ⟨input.nonempty, input.types_eq, .refl _⟩

variable {values : List (AggregationKind × Expr V)}

lemma isSupported_of_visit {ordinal : AggregationKind → Nat}
    {tasks : List (Aggregation.Task V)} {task : Aggregation.Task V}
    (h : visitConcatenateAggregate ordinal tasks keys values none = .ok task) :
    ∀ value ∈ values, IsSupported value.1 := by
  intro value hvalue
  obtain ⟨firstValues, hfst, -⟩ := bind_eq_ok h
  obtain ⟨vs, hvs⟩ := forall_of_mapM_eq_ok hfst value hvalue
  unfold firstAggregationValues at hvs
  split at hvs <;> simp_all [IsSupported, IsFirst]

variable {condition : Expr V}

lemma windowJoin_isSupported {aggregates : Table V}
    (hpar : parseJoinCondition {} condition = .ok (partitionKeys input.types.length keys))
    (hops : ∀ key ∈ keys, IsOperand input.types 0 key)
    (htys : aggregates.types.length = keys.length + 1)
    (hperfect : joinUseHashMapCache = false → useJoinPerfectHashing = false) :
    (windowJoin condition (range input.types.length ++ [input.types.length + keys.length])
      joinUseHashMapCache useJoinPerfectHashing).IsSupported input (single aggregates)
        (partitionKeys input.types.length keys) where
  parse := hpar
  keys := {
    left := hops
    right := by
      simp only [partitionKeys, forall_mem_map, mem_range]
      intro i hi
      exact .columnReference (by omega) (by simp only [single]; omega)
    predicates := nofun }
  joinType := .inl rfl
  perfectHashing _ := hperfect
  projection := by
    simp only [windowJoin, joinTypes, length_append, mem_append, mem_range,
      mem_singleton, Partitions.whole, single]
    omega

lemma orThrow_eq_ok {α : Type} {x : Except String α} {a : α} (h : orThrow x = .ok a) :
    x = .ok a := by
  cases x with
  | error what => cases h
  | ok b => exact congrArg _ (ok.inj h)

lemma tables_eq_of_eq_ok {run : Except Failure (List (TaskResult V))}
    {tables tables' : List (Table V)}
    (h : run = .ok (tables.map .table)) (h' : run = .ok (tables'.map .table)) : tables = tables' :=
  map_injective_iff.2 (fun _ _ => TaskResult.table.inj) (ok.inj (h.symm.trans h'))

variable [LinearOrder V] [AddCommMonoidWithOne V] {R : Reductions V} {J : CudfJoins V}

lemma executeList_input (parts : List (Table V)) :
    Task.executeList R J.expressions (parts.map .input) = .ok parts := by
  induction parts with
  | nil => rfl
  | cons t parts ih =>
    simp only [map_cons, Task.executeList, ih]
    rfl

omit [LinearOrder V] [AddCommMonoidWithOne V] in
lemma findRightTypes_partitionKeys {types aggregateTypes : List DataType} :
    (partitionKeys types.length keys).FindRightTypes types aggregateTypes := by
  apply JoinKeys.findRightTypes_of_columns
  intro e he
  obtain ⟨i, -, rfl⟩ := mem_map.1 he
  exact ⟨_, rfl⟩

omit [AddCommMonoidWithOne V] in
/-- The keys of the join are the partition keys and columns of the aggregation. -/
lemma areEvaluated_partitionKeys {C : Cudf V} {l aggregates : Table V} (hl : l ∈ input.parts)
    (heval : evaluateAggregation C keys values l = .ok ())
    (htys : aggregates.types.length = keys.length + 1) :
    (partitionKeys input.types.length keys).AreEvaluated C l (single aggregates).whole := by
  obtain ⟨-, -, heval⟩ := bind_eq_ok heval
  obtain ⟨leftKeys, hkeys, -⟩ := bind_eq_ok heval
  refine ⟨⟨leftKeys, hkeys⟩, exists_evaluate_columns fun e he => ?_⟩
  obtain ⟨i, hi, rfl⟩ := mem_map.1 he
  have hi := mem_range.1 hi
  refine ⟨_, rfl, ?_, ?_⟩ <;> rw [input.types_eq l hl]
  · omega
  · rw [whole_single, htys]
    omega

section

variable (hpar : parseJoinCondition {} condition = .ok (partitionKeys input.types.length keys))
include hpar

/-- The rows that a lowered window returns: the rows without a NULL among their partition keys, each
with the aggregate of its partition. -/
lemma runAggregateJoin_eq_ok (hkeys : keys ≠ []) (hops : ∀ key ∈ keys, IsOperand input.types 0 key)
    (hperfect : joinUseHashMapCache = false → useJoinPerfectHashing = false)
    (value : AggregationKind × Expr V) (hvalue : IsSupported value.1)
    (heval : ∀ t ∈ input.parts, evaluateAggregation J.expressions keys [value] t = .ok ()) :
    ∃ tables : List (Table V), runAggregateJoin R J keys [value] (windowJoin condition
        (range input.types.length ++ [input.types.length + keys.length]) joinUseHashMapCache
        useJoinPerfectHashing) input = .ok (tables.map .table) ∧
          (tables.flatMap (·.rows)).Perm ((input.whole.rows.filter fun r =>
          none ∉ keyOf J.expressions input.whole.typeOf keys r).map
        (windowRow R J.expressions keys [value] input.whole)) := by
  obtain ⟨task, aggregates, htask, haggs, htys, hrows⟩ :=
    exists_concatenate R J.expressions (executeList_input input.parts)
      isSplit_whole keys (forall_mem_singleton.2 hvalue) fun _ => rfl
  obtain ⟨tables, htabs, hperm⟩ := run_right_eq_ok
    (windowJoin_isSupported hpar hops htys hperfect) rfl findRightTypes_partitionKeys
    fun l hl => areEvaluated_partitionKeys hl (heval l hl) htys
  have hmap : input.parts.mapM (evaluateAggregation J.expressions keys [value]) =
      .ok (input.parts.map fun _ => ()) := mapM_eq_ok heval
  refine ⟨tables, ?_, hperm.trans ?_⟩
  · rw [runAggregateJoin, htask]
    simp only [orThrow, Except.mapError, ok_bind, hmap, haggs]
    exact htabs
  · rw [whole_single]
    exact rows_joinBy_partitionKeys hkeys hrows

/-- What a lowered window returns has been evaluated and aggregated, joined without perfect hashing
or with a cached hash map, and projected to columns there are. -/
lemma exists_aggregate_of_run {results : List (TaskResult V)}
    (h : runAggregateJoin R J keys values (windowJoin condition
      (range input.types.length ++ [input.types.length + keys.length]) joinUseHashMapCache
      useJoinPerfectHashing) input = .ok results) :
    (joinUseHashMapCache = false → useJoinPerfectHashing = false) ∧ values ≠ [] ∧
      (∀ value ∈ values, IsSupported value.1) ∧
      ∀ t ∈ input.parts, evaluateAggregation J.expressions keys values t = .ok () := by
  obtain ⟨task, htask, h⟩ := bind_eq_ok h
  obtain ⟨_, heval, h⟩ := bind_eq_ok h
  obtain ⟨aggregates, haggs, h⟩ := bind_eq_ok h
  have hvals := isSupported_of_visit (orThrow_eq_ok htask)
  obtain ⟨task', aggregates', htask', haggs', htys, -⟩ :=
    exists_concatenate R J.expressions (executeList_input input.parts)
      isSplit_whole keys hvals fun _ => rfl
  obtain rfl : task = task' := ok.inj ((orThrow_eq_ok htask).symm.trans htask')
  obtain rfl : aggregates = aggregates' :=
    ok.inj ((orThrow_eq_ok haggs).symm.trans haggs')
  obtain ⟨l, hl⟩ := exists_mem_of_ne_nil _ input.nonempty
  obtain ⟨cache, result, hexec⟩ := exists_execute_of_run h _ (mem_map_of_mem hl)
  refine ⟨?_, ?_, hvals, fun t ht => (forall_of_mapM_eq_ok heval t ht).elim fun _ => id⟩
  · rintro rfl
    exact perfectHashing_of_execute hexec hpar rfl rfl rfl
  rintro rfl
  have hproj := projection_lt_of_execute hexec rfl (input.types.length + keys.length)
    (mem_append_right _ (mem_singleton_self _))
  have hL : l.numColumns = input.types.length := congrArg length (input.types_eq l hl)
  have hr : (single aggregates).whole.numColumns = keys.length := htys
  simp only [hL, hr] at hproj
  exact lt_irrefl _ hproj

end

/-- A window without an order returns every row of the input, once, with the aggregate of its
partition, if and only if the window function has an argument and can be computed in two phases,
joins do not use perfect hashing without a cache of hash maps, the partition keys and the argument
can be evaluated on each part of the input, and no partition key is NULL. -/
theorem runAggregateJoin_perm_windowRows_iff {window : LogicalWindow V}
    {values : List (AggregationKind × Expr V)} {join : BroadcastJoin V}
    (hbuild : build joinUseHashMapCache useJoinPerfectHashing input.types.length window =
      .ok (.aggregateJoin keys values join))
    (hoperands : ∀ key ∈ window.partitionBy, IsOperand input.types 0 key) :
    (∃ tables : List (Table V), runAggregateJoin R J keys values join input =
        .ok (tables.map .table) ∧
      (tables.flatMap (·.rows)).Perm (windowRows R J.expressions window input.whole)) ↔
    (joinUseHashMapCache = false → useJoinPerfectHashing = false) ∧
      (window.arguments ≠ [] ∧ IsSupported window.aggrFunc) ∧
      (∀ t ∈ input.parts, evaluateAggregation J.expressions keys values t = .ok ()) ∧
      ∀ r ∈ input.whole.rows,
        none ∉ keyOf J.expressions input.whole.typeOf window.partitionBy r := by
  obtain ⟨rfl, hkeys, rfl, hlength, condition, rfl, hparse⟩ := build_eq_aggregateJoin hbuild
  rw [length_map] at hlength
  constructor
  · rintro ⟨tables, hrun, hperm⟩
    obtain ⟨hperfect, hvalues, hsupported, heval⟩ := exists_aggregate_of_run hparse hrun
    obtain ⟨argument, harguments⟩ := length_eq_one_iff.1
      (Nat.le_antisymm hlength (length_pos_iff.2 (mt map_eq_nil_iff.2 hvalues)))
    rw [windowRows] at hperm
    refine ⟨hperfect, ?_⟩
    simp only [harguments, map_singleton, forall_mem_singleton] at hrun hperm hsupported heval ⊢
    refine ⟨⟨by simp, hsupported⟩, heval, ?_⟩
    obtain ⟨tables', hrun', hperm'⟩ := runAggregateJoin_eq_ok hparse hkeys
      hoperands hperfect (window.aggrFunc, argument) hsupported heval
    -- the run returns as many rows as there are rows without NULLs
    obtain rfl := tables_eq_of_eq_ok hrun hrun'
    have hlengths := (hperm.symm.trans hperm').length_eq
    rw [length_map, length_map] at hlengths
    simpa using length_filter_eq_length_iff.1 hlengths.symm
  · rintro ⟨hperfect, ⟨harguments, hsupported⟩, heval, hnulls⟩
    obtain ⟨argument, harguments⟩ := length_eq_one_iff.1
      (Nat.le_antisymm hlength (length_pos_iff.2 harguments))
    simp only [harguments, map_singleton] at heval
    obtain ⟨tables, hrun, hperm⟩ := runAggregateJoin_eq_ok hparse hkeys
      hoperands hperfect (window.aggrFunc, argument) hsupported heval
    rw [filter_eq_self.2 (by simpa using hnulls)] at hperm
    rw [windowRows]
    simp only [harguments]
    exact ⟨tables, hrun, hperm⟩

/-! ### A NULL key -/

def sumWindow : LogicalWindow Int where
  aggrFunc := .sum
  arguments := [.columnReference 1]
  partitionBy := [.columnReference 0]
  orderBy := []
  orderDirs := []
  windowLowerBound := .unbounded
  windowUpperBound := .unbounded

/-- Three rows in two partitions, two of them with the same key. -/
def keyedInput (key : Option Int) : Partitions Int where
  types := [.int64, .int64]
  parts := [⟨[.int64, .int64], [[key, some 5], [some 1, some 7]], by simp, by simp⟩,
    ⟨[.int64, .int64], [[key, some 6]], by simp, by simp⟩]
  nonempty := by simp
  types_eq := by simp

def sumJoin (joinUseHashMapCache useJoinPerfectHashing : Bool) : BroadcastJoin Int :=
  windowJoin (keyEquality 2 (.columnReference 0, 0)) [0, 1, 3] joinUseHashMapCache
    useJoinPerfectHashing

lemma isOperand_partitionBy (key : Option Int) :
    ∀ e ∈ sumWindow.partitionBy, IsOperand (keyedInput key).types 0 e := by
  simp only [sumWindow, forall_mem_singleton]
  exact .columnReference le_rfl (by simp [keyedInput])

theorem runAggregateJoin_perm_windowRows_two : build true true 2 sumWindow =
      .ok (.aggregateJoin [.columnReference 0] [(.sum, .columnReference 1)]
        (sumJoin true true)) ∧
    ∃ tables : List (Table Int), runAggregateJoin .integers
        (.nestedLoops .integers fun _ _ _ => true) [.columnReference 0] [(.sum, .columnReference 1)]
        (sumJoin true true) (keyedInput (some 2)) = .ok (tables.map .table) ∧
      (tables.flatMap (·.rows)).Perm
        (windowRows .integers .integers sumWindow (keyedInput (some 2)).whole) :=
  ⟨rfl, (runAggregateJoin_perm_windowRows_iff rfl (isOperand_partitionBy (some 2))).2
    ⟨nofun, by decide, by decide, by decide⟩⟩

/-- The two rows with a NULL key are lost. -/
theorem not_runAggregateJoin_perm_windowRows_null : build false false 2 sumWindow =
      .ok (.aggregateJoin [.columnReference 0] [(.sum, .columnReference 1)]
        (sumJoin false false)) ∧
    ¬ ∃ tables : List (Table Int), runAggregateJoin .integers
        (.nestedLoops .integers fun _ _ _ => true) [.columnReference 0] [(.sum, .columnReference 1)]
        (sumJoin false false) (keyedInput none) = .ok (tables.map .table) ∧
      (tables.flatMap (·.rows)).Perm
        (windowRows .integers .integers sumWindow (keyedInput none).whole) := by
  refine ⟨rfl, ?_⟩
  rintro ⟨tables, hrun, hperm⟩
  obtain ⟨tables', hrun', hperm'⟩ := runAggregateJoin_eq_ok
    (show parseJoinCondition {} (sumJoin false false).condition =
      .ok (partitionKeys 2 sumWindow.partitionBy) from rfl) (by simp [sumWindow])
        (isOperand_partitionBy none) (fun _ => rfl)
    (.sum, .columnReference 1) (by decide) (forall_mem_cons.2 ⟨rfl, forall_mem_singleton.2 rfl⟩)
  obtain rfl := tables_eq_of_eq_ok hrun hrun'
  have hlengths := (hperm.symm.trans hperm').length_eq
  revert hlengths
  decide

end Gqe.Window
