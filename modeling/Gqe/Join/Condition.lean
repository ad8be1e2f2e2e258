import Gqe.Join.Evaluator

/-!
# Join conditions

How a join task takes a condition apart (`executor/join.cpp`): the operands of the equalities are
evaluated to key columns of the two inputs, and what is left is handed to cuDF as a predicate.
-/

namespace Gqe.Join

variable {V : Type}

inductive NullEquality where
  | equal
  | unequal
  deriving DecidableEq

/-! ### Parsing -/

/-- `join_keys_container`, as far as the condition goes. -/
structure JoinKeys (V : Type) where
  leftKeyExprs : List (Expr V) := []
  rightKeyExprs : List (Expr V) := []
  nonEqualityConditions : List (Expr V) := []
  compareNulls : Option NullEquality := none

namespace JoinKeys

@[simp] def updateNullEquality (keys : JoinKeys V) (policy : NullEquality) :
    Except Failure (JoinKeys V) :=
  if keys.compareNulls = none ∨ keys.compareNulls = some policy then
    .ok { keys with compareNulls := some policy }
  else
    .error (.throws "Mixed null equalities in a single join expression is not supported")

/-- The case of an equality in `parse_join_condition`. -/
def addKeys (keys : JoinKeys V) (policy : NullEquality) (left right : Expr V) :
    Except Failure (JoinKeys V) :=
  updateNullEquality { keys with
    leftKeyExprs := keys.leftKeyExprs ++ [left]
    rightKeyExprs := keys.rightKeyExprs ++ [right] } policy

/-- `compare_nulls`. -/
def getCompareNulls (keys : JoinKeys V) : Except Failure NullEquality :=
  match keys.compareNulls with
  | some policy => .ok policy
  | none => .error (.throws "Invalid access of uninitialized null equality policy")

lemma getCompareNulls_eq {keys : JoinKeys V} {policy : NullEquality}
    (h : keys.compareNulls = some policy) : keys.getCompareNulls = .ok policy := by
  rw [getCompareNulls, h]

end JoinKeys

def parseJoinCondition (keys : JoinKeys V) : Expr V → Except Failure (JoinKeys V)
  | .binaryOp .equal left right => keys.addKeys .unequal left right
  | .binaryOp .nullEquals left right => keys.addKeys .equal left right
  | .binaryOp .logicalAnd left right => do
    let keys ← parseJoinCondition keys left
    parseJoinCondition keys right
  | .binaryOp .nullLogicalAnd left right => do
    let keys ← parseJoinCondition keys left
    parseJoinCondition keys right
  | condition =>
    .ok { keys with nonEqualityConditions := keys.nonEqualityConditions ++ [condition] }

/-! ### Predicates -/

inductive TableReference where
  | left
  | right
  deriving DecidableEq

/-- The expressions of `cudf::ast` that a join predicate becomes. -/
inductive Ast (V : Type) where
  | columnReference (columnIdx : Nat) (table : TableReference)
  | literal (type : DataType) (value : V) (isNull : Bool)
  | binary (op : BinaryOp) (lhs rhs : Ast V)
  | not (child : Ast V)
  | castToInt64 (child : Ast V)
  | castToFloat64 (child : Ast V)

/-- The types with a literal in `predicate_rewriter`. -/
def hasAstLiteral : DataType → Bool
  | .int32 | .int64 | .float32 | .float64 | .string | .timestampDays => true
  | _ => false

def predicateRewriter (leftNumColumns : Nat) : Expr V → Except Failure (Ast V)
  | .columnReference i =>
    if i < leftNumColumns then .ok (.columnReference i .left)
    else .ok (.columnReference (i - leftNumColumns) .right)
  | .binaryOp op lhs rhs => do
    let lhs ← predicateRewriter leftNumColumns lhs
    let rhs ← predicateRewriter leftNumColumns rhs
    if BinaryOp.hasAstOperator op then .ok (.binary op lhs rhs) else .error unableToConvert
  | .unaryOp op child => do
    let child ← predicateRewriter leftNumColumns child
    if op = .not then .ok (.not child) else .error unableToConvert
  | .literal type value isNull =>
    if hasAstLiteral type then .ok (.literal type value isNull)
    else if type = .int8 then
      .error (.throws "Visiting literal_expression<int8_t> is not implemented")
    else .error (.throws "Visiting a generic literal_expression<T> is not implemented")
  | .cast child type => do
    let child ← predicateRewriter leftNumColumns child
    if type.isIntegral then .ok (.castToInt64 child)
    else if type.isFloatingPoint || type.isFixedPoint then .ok (.castToFloat64 child)
    else .error (.throws "Unsupported cast expression in the join condition")
  | .isNull _ => .error (.throws "Visiting is_null_expression is not implemented")
  | .ifThenElse _ _ _ => .error (.throws "Visiting if_then_else_expression is not implemented")
  | .scalarFunction _ _ => .error (.throws "Visiting scalar_function_expression is not implemented")
  | .inPredicate _ _ => .error (.throws "Visiting subquery_expression is not implemented")

def parsePredicates (leftNumColumns : Nat) (predicate : Expr V) (predicates : List (Expr V)) :
    Except Failure (Ast V) :=
  predicateRewriter leftNumColumns (predicates.foldl (.binaryOp .nullLogicalAnd) predicate)

/-! ### Evaluation -/

/-- A parsed condition with its keys. -/
structure EvaluatedKeys (V : Type) where
  condition : JoinKeys V
  leftKeys : KeyTable V
  rightKeys : KeyTable V

def addJoinCondition [LinearOrder V] (C : Cudf V) (left right : Table V) (condition : Expr V) :
    Except Failure (EvaluatedKeys V) := do
  let keys ← parseJoinCondition {} condition
  let leftKeys ← evaluateExpressions C left 0 keys.leftKeyExprs
  let rightKeys ← evaluateExpressions C right left.numColumns keys.rightKeyExprs
  .ok ⟨keys, leftKeys, rightKeys⟩

end Gqe.Join
