import Gqe.Lib.Grouping
import Gqe.Relation
import Mathlib.Data.Nat.Cast.Defs

/-!
# Aggregation by apply, concatenate, apply

`executor/task_graph.cpp` and `executor/aggregate.cpp`: the tasks for a `concatenate_aggregate`
relation aggregate each partition, concatenate the results, aggregate again and project. A mean is
carried as a sum and a count and divided at the end.
-/

namespace Gqe.Aggregation

open List

/-! ### cuDF reductions -/

/-- The aggregations of cuDF: group-by and reduction compute each kind of the values of a group,
ignoring NULLs except in `COUNT_ALL`. The order in which group-by returns the groups is not
specified. -/
structure Reductions (V : Type*) [LinearOrder V] [AddCommMonoidWithOne V] where
  reduce : AggregationKind → List (Option V) → Option V
  /-- `cudf::detail::target_type`. -/
  targetType : DataType → AggregationKind → DataType
  /-- The value of the enumerator, for error texts. -/
  ordinal : AggregationKind → Nat
  groupOrder : List (Row V) → List (Row V)
  groupOrder_perm : ∀ keys, (groupOrder keys).Perm keys
  reduce_sum : ∀ l, reduce .sum l = if l.reduceOption = [] then none else some l.reduceOption.sum
  reduce_min : ∀ l, reduce .min l = l.reduceOption.min?
  reduce_max : ∀ l, reduce .max l = l.reduceOption.max?
  reduce_countValid : ∀ l, reduce .countValid l = some (l.reduceOption.length : V)
  reduce_countAll : ∀ l, reduce .countAll l = some (l.length : V)

variable {V : Type*}

/-- The kinds without grouping keys: the counts and those of `get_reduce_aggregation`. -/
def isReduceAggregation : AggregationKind → Bool
  | .countValid | .countAll => true
  | .sum | .product | .min | .max | .any | .all | .sumOfSquares | .mean | .variance | .std
  | .median => true
  | _ => false

/-- The kinds of `get_groupby_aggregation`. -/
def isGroupbyAggregation : AggregationKind → Bool
  | .sum | .product | .min | .max | .countValid | .countAll | .sumOfSquares | .mean | .variance
  | .std | .median => true
  | _ => false

section Task
variable [LinearOrder V] [AddCommMonoidWithOne V] (R : Reductions V) (C : Cudf V)

/-! ### Aggregate tasks -/

def evalColumn (τ : Nat → DataType) (rows : List (Row V)) (e : Expr V) : List (Option V) :=
  rows.map fun r => e.eval C τ r

/-- A measure without grouping keys; counts are taken from the size of the column. -/
def reduceColumn (kind : AggregationKind) (column : List (Option V)) : Option V :=
  match kind with
  | .countValid => some ((column.length - column.countP (·.isNone) : Nat) : V)
  | .countAll => some (column.length : V)
  | kind => R.reduce kind column

/-- The type of a measure without grouping keys; counts are `cudf::size_type`. -/
def reduceType (τ : Nat → DataType) (value : AggregationKind × Expr V) : DataType :=
  match value.1 with
  | .countValid | .countAll => .int32
  | kind => R.targetType ((value.2.dataType τ).getD .empty) kind

def groupbyType (τ : Nat → DataType) (value : AggregationKind × Expr V) : DataType :=
  R.targetType ((value.2.dataType τ).getD .empty) value.1

/-- The rows the condition of an aggregation leaves. -/
def activeRows (condition : Option (Expr V)) (t : Table V) : List (Row V) :=
  match condition with
  | none => t.rows
  | some c => t.rows.filter fun r => c.IsTrue C t.typeOf r

def keyOf (τ : Nat → DataType) (keys : List (Expr V)) (r : Row V) : Row V :=
  keys.map (·.eval C τ r)

def groupRow (τ : Nat → DataType) (values : List (AggregationKind × Expr V)) (key : Row V)
    (rows : List (Row V)) : Row V :=
  key ++ values.map fun (kind, e) => R.reduce kind (evalColumn C τ rows e)

def groupRows (τ : Nat → DataType) (keys : List (Expr V))
    (values : List (AggregationKind × Expr V)) (rows : List (Row V)) : List (Row V) :=
  Grouping.aggregate R.groupOrder (keyOf C τ keys) (groupRow R C τ values) rows

lemma length_of_mem_groupRows {τ : Nat → DataType} {keys : List (Expr V)}
    {values : List (AggregationKind × Expr V)} {rows : List (Row V)} {row : Row V}
    (h : row ∈ groupRows R C τ keys values rows) : row.length = keys.length + values.length := by
  obtain ⟨k, hk, rfl⟩ := mem_map.1 h
  rw [Grouping.mem_order_dedup R.groupOrder_perm] at hk
  obtain ⟨r, -, rfl⟩ := mem_map.1 hk
  simp [groupRow, keyOf]

def reduceRow (τ : Nat → DataType) (values : List (AggregationKind × Expr V))
    (rows : List (Row V)) : Row V :=
  values.map fun (kind, e) => reduceColumn R kind (evalColumn C τ rows e)

/-- `aggregate_task::execute`, with a group-by that computes the measures of the rows that meet the
condition; `HashGroupBy.Query.executeGroupby` has the group-by of the source. -/
def executeAggregate (keys : List (Expr V)) (values : List (AggregationKind × Expr V))
    (condition : Option (Expr V)) (t : Table V) : Except String (Table V) :=
  if keys = [] then
    if condition.isSome && !t.rows.isEmpty then
      .error "Using mask is not supported by cudf::reduce"
    else
      match values.find? fun value => !isReduceAggregation value.1 with
      | some (kind, _) => .error s!"Unknown reduce aggregation: {R.ordinal kind}"
      | none => .ok <| .build (values.map (reduceType R t.typeOf)) [t.rows]
          (reduceRow R C t.typeOf values) (by simp [reduceRow])
  else
    match values.find? fun value => !isGroupbyAggregation value.1 with
    | some (kind, _) => .error s!"Unknown groupby aggregation: {R.ordinal kind}"
    | none => .ok <| .build (keys.map (fun e => (e.dataType t.typeOf).getD .empty) ++
          values.map (groupbyType R t.typeOf))
        (groupRows R C t.typeOf keys values (activeRows C condition t)) id
        (fun row h => by simpa using length_of_mem_groupRows R C h)

/-! ### Task graphs -/

/-- `cudf::concatenate`, which asks for tables with the same types. -/
def concatenateTables : List (Table V) → Except String (Table V)
  | [] => .error "Cannot concatenate zero tables"
  | t :: ts =>
    if h : ∀ u ∈ ts, u.types = t.types then
      .ok <| .build t.types ((t :: ts).flatMap (·.rows)) id (by
        intro r hr
        simp only [flatMap_cons, mem_append, mem_flatMap] at hr
        rcases hr with hr | ⟨u, hu, hr⟩
        · exact t.length_row r hr
        · exact (u.length_row r hr).trans (by rw [h u hu]))
    else .error "Type mismatch in columns to concatenate"

/-- The tasks of the graph of an aggregation, each with the tasks it depends on. -/
inductive Task (V : Type*) where
  | input (result : Table V)
  | aggregate (dependency : Task V) (keys : List (Expr V))
      (values : List (AggregationKind × Expr V)) (condition : Option (Expr V))
  | concatenate (dependencies : List (Task V))
  | project (dependency : Task V) (outputExpressions : List (Expr V))

mutual

/-- Execute a task after those it depends on. -/
def Task.execute : Task V → Except String (Table V)
  | .input t => .ok t
  | .aggregate task keys values condition => do
    executeAggregate R C keys values condition (← task.execute)
  | .concatenate tasks => do concatenateTables (← Task.executeList tasks)
  | .project task es => do return (← task.execute).project C es

def Task.executeList : List (Task V) → Except String (List (Table V))
  | [] => .ok []
  | task :: tasks => do return (← task.execute) :: (← Task.executeList tasks)

end

end Task

/-! ### The task graph of a `concatenate_aggregate` relation -/

def getSecondAggregationKind (ordinal : AggregationKind → Nat) :
    AggregationKind → Except String AggregationKind
  | .sum => .ok .sum
  | .countValid => .ok .sum
  | .countAll => .ok .sum
  | .min => .ok .min
  | .max => .ok .max
  | kind => .error s!"Unknown aggregation type in get_second_aggregation_kind: {ordinal kind}"

/-- The measures of the first aggregation for one measure of the relation. -/
def firstAggregationValues (ordinal : AggregationKind → Nat) (value : AggregationKind × Expr V) :
    Except String (List (AggregationKind × Expr V)) :=
  match value.1 with
  | .sum => .ok [(.sum, value.2)]
  | .mean => .ok [(.sum, value.2), (.countValid, value.2)]
  | .countValid => .ok [(.countValid, value.2)]
  | .countAll => .ok [(.countAll, value.2)]
  | .min => .ok [(.min, value.2)]
  | .max => .ok [(.max, value.2)]
  | kind => .error s!"Unknown aggregation type in task_graph_builder: {ordinal kind}"

/-- The output expressions for the measures, the first of which is in column `inIdx`. -/
def postprocess (ordinal : AggregationKind → Nat) :
    List (AggregationKind × Expr V) → (inIdx : Nat) → Except String (List (Expr V))
  | [], _ => .ok []
  | (kind, _) :: values, inIdx =>
    match kind with
    | .sum | .countValid | .countAll | .min | .max => do
      return .columnReference inIdx :: (← postprocess ordinal values (inIdx + 1))
    | .mean => do
      return .binaryOp .trueDiv (.columnReference inIdx) (.columnReference (inIdx + 1)) ::
        (← postprocess ordinal values (inIdx + 2))
    | kind => .error s!"Unknown aggregation type in task_graph_builder: {ordinal kind}"

/-- `task_graph_builder::concatenate`: a single task is not concatenated. -/
def concatenate : List (Task V) → Task V
  | [task] => task
  | tasks => .concatenate tasks

/-- `generate_task_graph_visitor::visit(concatenate_aggregate_relation)`: the task generated for
the relation from those generated for its child. -/
def visitConcatenateAggregate (ordinal : AggregationKind → Nat) (inputTasks : List (Task V))
    (keys : List (Expr V)) (values : List (AggregationKind × Expr V))
    (condition : Option (Expr V)) : Except String (Task V) := do
  let firstValues := (← values.mapM (firstAggregationValues ordinal)).flatten
  let firstTasks := inputTasks.map fun task => .aggregate task keys firstValues condition
  let keyColumns := (range keys.length).map .columnReference
  let secondValues ← firstValues.zipIdx.mapM fun ((kind, _), columnIdx) =>
    (getSecondAggregationKind ordinal kind).map fun kind =>
      (kind, Expr.columnReference (keys.length + columnIdx))
  let secondTask := .aggregate (concatenate firstTasks) keyColumns secondValues none
  return .project secondTask (keyColumns ++ (← postprocess ordinal values keys.length))

end Gqe.Aggregation
