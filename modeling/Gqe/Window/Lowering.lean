import Gqe.Aggregation.Correctness
import Gqe.Join.Partitioning

/-!
# Windows in physical plans

`physical_plan_builder::build` (`optimizer/physical_transformation.cpp`) makes a join of a window.
If there is no order, the input is aggregated by the partition keys, and the aggregates are joined
back to it. Otherwise the rows of the input are numbered, and the values of a window relation are
joined back by these numbers.
-/

namespace Gqe.Window

open Join (BroadcastJoin)

variable {V : Type}

/-- `logical::window_relation`. -/
structure LogicalWindow (V : Type) where
  aggrFunc : AggregationKind
  arguments : List (Expr V)
  partitionBy : List (Expr V)
  orderBy : List (Expr V)
  orderDirs : List Order
  windowLowerBound : WindowFrameBound
  windowUpperBound : WindowFrameBound

/-- `physical::window_relation`, without its child. -/
structure PhysicalWindow (V : Type) where
  aggrFunc : AggregationKind
  identCols : List (Expr V)
  arguments : List (Expr V)
  partitionBy : List (Expr V)
  orderBy : List (Expr V)
  orderDirs : List Order
  windowLowerBound : WindowFrameBound
  windowUpperBound : WindowFrameBound

/-- The relations that a window becomes: an aggregation of the child that is joined to the child, or
a window relation over the numbered child that is joined to the numbered child. -/
inductive LoweredWindow (V : Type) where
  | aggregateJoin (keys : List (Expr V)) (values : List (AggregationKind × Expr V))
      (join : BroadcastJoin V)
  | rowIdJoin (window : PhysicalWindow V) (join : BroadcastJoin V)

/-- The equality of a partition key with its column in the aggregation. -/
def keyEquality (numInputCols : Nat) (key : Expr V × Nat) : Expr V :=
  .binaryOp .equal key.1 (.columnReference (numInputCols + key.2))

/-- The join condition for the partition keys, the first of which is given. -/
def partitionCondition (numInputCols : Nat) (key : Expr V) (keys : List (Expr V)) : Expr V :=
  (keys.zipIdx 1).foldl (fun condition key =>
    .binaryOp .nullLogicalAnd condition (keyEquality numInputCols key))
    (keyEquality numInputCols (key, 0))

/-- The inner joins of the lowered windows, with the cache of hash maps that the task graph builder
gives them. -/
def windowJoin (condition : Expr V) (joinIndices : List Nat)
    (joinUseHashMapCache useJoinPerfectHashing : Bool) : BroadcastJoin V where
  joinType := .inner
  condition := condition
  projectionIndices := joinIndices
  policy := .right
  cacheEnabled := joinUseHashMapCache
  perfectHashing := useJoinPerfectHashing

/-- `physical_plan_builder::build` for a window. -/
def build (joinUseHashMapCache useJoinPerfectHashing : Bool) (numInputCols : Nat)
    (window : LogicalWindow V) : Except String (LoweredWindow V) :=
  if (window.windowLowerBound ≠ .unbounded ∨ window.windowUpperBound ≠ .unbounded) ∧
      window.orderBy.length = 0 then
    .error "Custom window frame only supported when order_by is present."
  else
    match window.partitionBy, window.orderBy with
    | key :: keys, [] =>
      if 1 < window.arguments.length then
        .error "Logical window relation can have at most one argument."
      else
        .ok (.aggregateJoin (key :: keys) (window.arguments.map (window.aggrFunc, ·))
          (windowJoin (partitionCondition numInputCols key keys)
            (List.range numInputCols ++ [numInputCols + (keys.length + 1)]) joinUseHashMapCache
            useJoinPerfectHashing))
    | partitionBy, order :: orderBy =>
      .ok (.rowIdJoin
        { aggrFunc := window.aggrFunc
          identCols := [.columnReference numInputCols]
          arguments := window.arguments
          partitionBy := partitionBy
          orderBy := order :: orderBy
          orderDirs := window.orderDirs
          windowLowerBound := window.windowLowerBound
          windowUpperBound := window.windowUpperBound }
        (windowJoin
          (.binaryOp .equal (.columnReference numInputCols) (.columnReference (numInputCols + 1)))
          (List.range numInputCols ++ [numInputCols + 2]) joinUseHashMapCache
          useJoinPerfectHashing))
    | [], [] =>
      .error ("GQE currently doesn't support frame-only window functions. Logical window " ++
        "relation must have partition-by or order-by clause.")

end Gqe.Window
