import Gqe.Table

/-!
# Logical plans

The logical relations of the engine (`include/gqe/logical`) and the tables they evaluate to.
Filters, projections and joins are evaluated as by the tasks of the executor; what the remaining
relations compute from the tables of their children is a parameter.
-/

namespace Gqe

/-! ### Relations -/

/-- `join_type_type`. -/
inductive JoinType where
  | inner | left | leftSemi | leftAnti | full | single
  deriving DecidableEq

/-- `set_relation::set_operator_type`. -/
inductive SetOperator where
  | union | unionAll | intersect | minus
  deriving DecidableEq

/-- The kinds of `cudf::aggregation` the engine distinguishes. -/
inductive AggregationKind where
  | sum | product | min | max | countValid | countAll | any | all | sumOfSquares | mean
  | variance | std | median | rank | rowNumber
  deriving DecidableEq

inductive Order where
  | ascending | descending
  deriving DecidableEq

inductive NullOrder where
  | after | before
  deriving DecidableEq

inductive WindowFrameBound where
  | unbounded | bounded (rows : Int)
  deriving DecidableEq

/-- What a relation consists of besides its children and subqueries. A user-defined relation is
known by the index of its task functor. -/
inductive RelOp (V : Type*) where
  | read (tableName : String) (columnNames : List String) (columnTypes : List DataType)
      (partialFilter : Option (Expr V))
  | write (tableName : String) (columnNames : List String) (columnTypes : List DataType)
  | filter (condition : Expr V) (projectionIndices : List Nat)
  | project (outputExpressions : List (Expr V))
  | join (condition : Expr V) (joinType : JoinType) (projectionIndices : List Nat)
  | aggregate (keys : List (Expr V)) (measures : List (AggregationKind × Expr V))
  | sort (columnOrders : List Order) (nullPrecedences : List NullOrder)
      (expressions : List (Expr V))
  | fetch (offset count : Nat)
  | set (setOperator : SetOperator)
  | window (aggrFunc : AggregationKind) (arguments orderBy partitionBy : List (Expr V))
      (orderDirs : List Order) (lowerBound upperBound : WindowFrameBound)
  | userDefined (taskFunctor : Nat) (dataTypes : List DataType)

/-- A logical plan, as a tree of relations. -/
inductive Plan (V : Type*) where
  | node (op : RelOp V) (children subqueries : List (Plan V))

/-! ### Filters, projections and joins -/

variable {V : Type*}

def Row.select (r : Row V) (indices : List Nat) : Row V := indices.map r.col

@[simp] lemma Row.length_select (r : Row V) (indices : List Nat) :
    (r.select indices).length = indices.length := by
  simp [select]

/-- The row of `n` NULLs. -/
def Row.nulls (n : Nat) : Row V := List.replicate n none

/-- The table of the given columns of some rows, whose columns have types `τ`. -/
def Table.materialize (τ : Nat → DataType) (rows : List (Row V)) (projectionIndices : List Nat) :
    Table V :=
  .build (projectionIndices.map τ) rows (·.select projectionIndices) (by simp)

/-- Same columns and, up to their order, the same rows. -/
structure SameResult (t t' : Table V) : Prop where
  types : t.types = t'.types
  rows : t.rows.Perm t'.rows

lemma SameResult.trans {t t' t'' : Table V} (h : SameResult t t') (h' : SameResult t' t'') :
    SameResult t t'' :=
  ⟨h.types.trans h'.types, h.rows.trans h'.rows⟩

lemma SameResult.numColumns_eq {t t' : Table V} (h : SameResult t t') :
    t.numColumns = t'.numColumns := by
  rw [Table.numColumns, Table.numColumns, h.types]

lemma sameResult_materialize (τ : Nat → DataType) {rows rows' : List (Row V)}
    (h : rows.Perm rows') (projectionIndices : List Nat) :
    SameResult (.materialize τ rows projectionIndices)
      (.materialize τ rows' projectionIndices) := by
  refine ⟨rfl, ?_⟩
  simp only [Table.materialize, Table.build]
  split_ifs
  · exact .refl _
  · exact h.map _

variable [LinearOrder V]

/-- `filter_task`: the selected columns of the rows on which the condition is TRUE. -/
def Table.filter (C : Cudf V) (condition : Expr V) (projectionIndices : List Nat) (t : Table V) :
    Table V :=
  .materialize t.typeOf (t.rows.filter fun r => condition.IsTrue C t.typeOf r) projectionIndices

/-- `project_task`: one column for each expression. -/
def Table.project (C : Cudf V) (outputExpressions : List (Expr V)) (t : Table V) : Table V :=
  .build (outputExpressions.map fun e => (e.dataType t.typeOf).getD .empty)
    t.rows (fun r => outputExpressions.map (·.eval C t.typeOf r)) (by simp)

def joinConditionTypes (left right : Table V) (i : Nat) : DataType :=
  (left.types ++ right.types).getD i .empty

omit [LinearOrder V] in
lemma SameResult.joinConditionTypes_eq {left left' right right' : Table V}
    (hleft : SameResult left left') (hright : SameResult right right') :
    joinConditionTypes left right = joinConditionTypes left' right' := by
  funext i
  rw [joinConditionTypes, joinConditionTypes, hleft.types, hright.types]

/-- The rows of the right input that match a row of the left input. -/
def joinMatches (C : Cudf V) (condition : Expr V) (left right : Table V) (l : Row V) :
    List (Row V) :=
  right.rows.filter fun r => condition.IsTrue C (joinConditionTypes left right) (l ++ r)

/-- The rows of a join before the projection. -/
def joinRows (C : Cudf V) (condition : Expr V) (joinType : JoinType) (left right : Table V) :
    List (Row V) :=
  let nullsRight := Row.nulls right.numColumns
  let matching := joinMatches C condition left right
  let leftOuter := left.rows.flatMap fun l =>
    if matching l = [] then [l ++ nullsRight] else (matching l).map (l ++ ·)
  match joinType with
  | .inner    => left.rows.flatMap fun l => (matching l).map (l ++ ·)
  | .left     => leftOuter
  | .leftSemi => left.rows.filter fun l => matching l ≠ []
  | .leftAnti => left.rows.filter fun l => matching l = []
  | .full     => leftOuter ++ (right.rows.filter fun r => left.rows.all fun l =>
                   !decide (condition.IsTrue C (joinConditionTypes left right) (l ++ r))).map
                     (Row.nulls left.numColumns ++ ·)
  | .single   => left.rows.map fun l => l ++ (matching l).head?.getD nullsRight

def joinTypes (joinType : JoinType) (left right : Table V) : List DataType :=
  match joinType with
  | .leftSemi | .leftAnti => left.types
  | _ => left.types ++ right.types

def Table.join (C : Cudf V) (condition : Expr V) (joinType : JoinType)
    (projectionIndices : List Nat) (left right : Table V) : Table V :=
  .materialize (fun i => (joinTypes joinType left right).getD i .empty)
    (joinRows C condition joinType left right) projectionIndices

/-! ### Plans -/

/-- What a plan is evaluated with: the operators, given the results of the subqueries that
expressions refer to, and the remaining relations. -/
structure Engine (V : Type*) where
  cudf : (subqueries : List (Table V)) → Cudf V
  other : RelOp V → (children subqueries : List (Table V)) → Table V

/-- The table of a relation, given those of its children and subqueries. -/
def Engine.evalOp (E : Engine V) (op : RelOp V) (children subqueries : List (Table V)) : Table V :=
  match op, children with
  | .filter c p, [t]      => t.filter (E.cudf subqueries) c p
  | .project es, [t]      => t.project (E.cudf subqueries) es
  | .join c type p, [l, r] => l.join (E.cudf subqueries) c type p r
  | op, children          => E.other op children subqueries

mutual

/-- The table a plan evaluates to. -/
def Plan.eval (E : Engine V) : Plan V → Table V
  | .node op children subqueries =>
    E.evalOp op (Plan.evalList E children) (Plan.evalList E subqueries)

def Plan.evalList (E : Engine V) : List (Plan V) → List (Table V)
  | []      => []
  | p :: ps => p.eval E :: Plan.evalList E ps

end

lemma Plan.evalList_eq_map (E : Engine V) (ps : List (Plan V)) :
    evalList E ps = ps.map (·.eval E) := by
  induction ps with
  | nil => rfl
  | cons p ps ih => simp [evalList, ih]

@[simp] lemma Plan.eval_node (E : Engine V) (op : RelOp V) (children subqueries : List (Plan V)) :
    (node op children subqueries).eval E =
      E.evalOp op (children.map (·.eval E)) (subqueries.map (·.eval E)) := by
  simp [eval, evalList_eq_map]

end Gqe
