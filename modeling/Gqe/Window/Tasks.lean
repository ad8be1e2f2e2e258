import Gqe.Join.Shuffle
import Gqe.TaskGraph.Serialization
import Gqe.Window.PartitionBy

/-!
# Windows with an order

The tasks of a window with an order: `gen_ident_col_task` (`executor/gen_ident_col.cu`) numbers the
rows of its input, `window_task` (`executor/window.cpp`) computes the values of the window function
beside these numbers, and join tasks put the two together. The tasks are those that the builder
generates for the plan.
-/

namespace Gqe.Window

open Join TaskGraph

variable {V : Type}

/-! ### Calls of cuDF -/

/-- What a window function sees of a row. -/
structure WindowCell (V : Type) where
  partition : Row V
  order : Row V
  argument : Row V
  deriving DecidableEq

/-- The joins of cuDF, with numbers as values, sorting, and the grouped range windows and ranks. The
value of a row depends on which rows there are, and not on their order. -/
structure CudfWindows (V : Type) [LinearOrder V] extends CudfJoins V where
  /-- A `uint64_t`. -/
  ofUInt64 : Nat → V
  ofUInt64_injective : Function.Injective ofUInt64
  /-- `get_groups` and `segmented_sort_by_key`, or `sort_by_key`. -/
  sort : PhysicalWindow V → Table V → Table V
  sort_types (window : PhysicalWindow V) (t : Table V) : (sort window t).types = t.types
  sort_rows (window : PhysicalWindow V) (t : Table V) : (sort window t).rows.Perm t.rows
  windowValue : PhysicalWindow V → List (WindowCell V) → WindowCell V → Option V
  windowValue_perm (window : PhysicalWindow V) {cells cells' : List (WindowCell V)} :
    cells.Perm cells' → windowValue window cells = windowValue window cells'
  windowType : PhysicalWindow V → List DataType → DataType
  /-- The value of the enumerator, for error texts. -/
  ordinal : AggregationKind → Nat

/-- The kinds of `get_rolling_aggregation`. -/
def isRollingAggregation : AggregationKind → Bool
  | .sum | .min | .max | .countValid | .mean | .variance | .countAll | .std | .rowNumber => true
  | _ => false

/-- A bound that is given needs an order by integers. -/
def checkWindowBound (orderType : DataType) : WindowFrameBound → Except Failure Unit
  | .unbounded => .ok ()
  | .bounded _ =>
    if orderType.isIntegral then .ok ()
    else .error (.throws "Non-integral order-by columns not supported!\n")

/-- What is asked of a window function, given the type of the order. -/
def checkWindowFunction (ordinal : AggregationKind → Nat) (window : PhysicalWindow V)
    (orderType : DataType) : Except Failure Unit :=
  if window.aggrFunc = .rank then
    if window.windowLowerBound = .unbounded then .ok ()
    else .error (.throws
      "RANK-aggregated window function does not support a custom lower window bound.")
  else if window.arguments = [] then .error .outOfBounds
  else if isRollingAggregation window.aggrFunc then do
    checkWindowBound orderType window.windowLowerBound
    checkWindowBound orderType window.windowUpperBound
  else .error (.throws s!"Unknown rolling aggregation: {ordinal window.aggrFunc}")

/-- The checks of `window_task::execute` and `window_partition_and_order`. -/
def checkWindow (ordinal : AggregationKind → Nat) (window : PhysicalWindow V)
    (τ : Nat → DataType) : Except Failure Unit :=
  match window.orderBy with
  | [] => .error (.throws "Window task needs an order-by expression\n")
  | [order] =>
    if 1 < window.arguments.length then
      .error (.throws "Window function cannot have more than one argument column")
    else checkWindowFunction ordinal window ((order.dataType τ).getD .empty)
  | _ :: _ :: _ => .error (.throws "Window function cannot have more than one order_by column")

/-! ### Tasks -/

section Tasks

variable [LinearOrder V]

/-- What a window function sees of a row: ranks have no argument. -/
def windowCell (C : Cudf V) (window : PhysicalWindow V) (τ : Nat → DataType) (r : Row V) :
    WindowCell V where
  partition := window.partitionBy.map (·.eval C τ r)
  order := window.orderBy.map (·.eval C τ r)
  argument := if window.aggrFunc = .rank then [] else window.arguments.map (·.eval C τ r)

variable (J : CudfWindows V)

/-- `gen_ident_col_task::execute`. The task id and the position of a row have 31 bits, so that the
number of a row does not overflow. -/
def genIdentCol (taskId : Nat) (input : Table V) : Table V where
  types := input.types ++ [.uint64]
  rows := (input.rows.zipIdx (taskId <<< 32)).map fun (r, i) => r ++ [some (J.ofUInt64 i)]
  length_row := by
    intro r hr
    obtain ⟨⟨r', i⟩, hmem, rfl⟩ := List.mem_map.1 hr
    have hlength : r'.length = input.types.length :=
      input.length_row r' (List.fst_mem_of_mem_zipIdx hmem)
    simp [hlength]
  rows_of_no_columns := by simp

def windowPartitionAndOrder (window : PhysicalWindow V) (input : Table V) :
    Except Failure (Table V) := do
  checkWindow J.ordinal window input.typeOf
  let sorted := J.sort window input
  let cells := sorted.rows.map (windowCell J.expressions window sorted.typeOf)
  .ok (.build (window.identCols.map (fun e => (e.dataType sorted.typeOf).getD .empty) ++
      [J.windowType window sorted.types]) sorted.rows
    (fun r => window.identCols.map (·.eval J.expressions sorted.typeOf r) ++
      [J.windowValue window cells (windowCell J.expressions window sorted.typeOf r)]) (by simp))

/-! ### Plans -/

/-- The plan of a window with an order, over the plan of its child. The relation with the numbers is
used twice. -/
def rowIdPlan (genIdentId windowId joinId : Nat) (child : PhysicalRelation) : PhysicalRelation :=
  .binary joinId (.broadcastJoin .inner .right) (.unary genIdentId .genIdentCol child)
    (.unary windowId .window (.unary genIdentId .genIdentCol child))

variable (window : PhysicalWindow V) (join : BroadcastJoin V)
  (results : Task → Except Failure (Table V))

/-- The result of a task that numbers rows, given those of the tasks of the child. -/
def genIdentColResult (t : Task) : Except Failure (Table V) :=
  match t.dependencies with
  | [input] => genIdentCol J t.taskId <$> results input
  | _ => .error (.throws "Assertion failed: dependent_tasks.size() == 1")

/-- The input of a window task: one table with numbers, or several that are concatenated. -/
def windowInput (t : Task) : Except Failure (Table V) :=
  if t.kind = .concatenate then do
    concatenateTables (← t.dependencies.mapM (genIdentColResult J results))
  else genIdentColResult J results t

def windowResult (t : Task) : Except Failure (Table V) :=
  match t.dependencies with
  | [input] => do windowPartitionAndOrder J window (← windowInput J results input)
  | _ => .error (.throws "Assertion failed: dependent_tasks.size() == 1")

/-- The two inputs of a join task. -/
def joinInputs (t : Task) : Except Failure (Table V × Table V) :=
  match t.dependencies with
  | [left, right] => do
    return (← genIdentColResult J results left, ← windowResult J window results right)
  | _ => .error (.throws "Assertion failed: dependent_tasks.size() == 2")

/-- The results of the tasks that the builder, in a given state, generates for a plan of a window
with an order. -/
def runRowIdPlan (ctx : Context) (plan : PhysicalRelation) (b : Builder) :
    Except Failure (List (TaskResult V)) := do
  let (joinTasks, _) ← orThrow (generateTasks ctx plan b)
  let inputs ← joinTasks.mapM (joinInputs J window results)
  runJoinTasks J.toCudfJoins (join.joinTask .right true) none inputs

/-! ### The purpose of a window -/

/-- Every row of the input with the value of the window function. -/
def orderedWindowRows (t : Table V) : List (Row V) :=
  let cell := windowCell J.expressions window t.typeOf
  t.rows.map fun r => r ++ [J.windowValue window (t.rows.map cell) (cell r)]

end Tasks

end Gqe.Window
