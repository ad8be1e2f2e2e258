import Gqe.Rpc.Expressions
import Gqe.TaskGraph.Builder
import Gqe.Uniqueness.JoinPolicy

/-!
# Physical plans in messages

A physical plan is sent to the processes that execute it as a protocol buffer
(`proto/physical_plan.proto`), which `rpc/serialization/relation_serialization.cpp` writes and
`rpc/serialization/relation_deserialization.cpp` reads. Both go through the plan as through a tree.
-/

namespace Gqe.Rpc

open Fallible RoundTrip List
open TaskGraph (BroadcastPolicy)
open Uniqueness (UniqueKeysPolicy)

variable {Kind : Type}

/-! ### Physical relations -/

/-- The relations of `include/gqe/physical`, with everything they are constructed from. Aggregations
have a `Kind` of cuDF, and a user-defined relation is known by the index of its task functor. -/
inductive PhysicalRelation (Kind : Type) where
  | read (subqueries : List (PhysicalRelation Kind)) (columnNames : List String)
      (tableName : String) (partialFilter : Option Expression) (dataTypes : List DataType)
  | write (input : PhysicalRelation Kind) (columnNames : List String) (tableName : String)
  | broadcastJoin (left right : PhysicalRelation Kind) (subqueries : List (PhysicalRelation Kind))
      (joinType : JoinType) (condition : Option Expression) (projectionIndices : List Int)
      (policy : BroadcastPolicy) (uniqueKeysPolicy : UniqueKeysPolicy) (perfectHashing : Bool)
      (leftFilterCondition rightFilterCondition : Option Expression)
      (useHashMapCache useMarkJoin useLikeShiftAnd : Bool)
  | shuffleJoin (left right : PhysicalRelation Kind) (subqueries : List (PhysicalRelation Kind))
      (joinType : JoinType) (condition : Option Expression) (projectionIndices : List Int)
      (uniqueKeysPolicy : UniqueKeysPolicy) (perfectHashing useLikeShiftAnd : Bool)
  | project (input : PhysicalRelation Kind) (subqueries : List (PhysicalRelation Kind))
      (outputExpressions : List Expression) (useLikeShiftAnd : Bool)
  | filter (input : PhysicalRelation Kind) (subqueries : List (PhysicalRelation Kind))
      (condition : Option Expression) (projectionIndices : List Int) (useLikeShiftAnd : Bool)
  | concatenateSort (input : PhysicalRelation Kind) (subqueries : List (PhysicalRelation Kind))
      (keys : List Expression) (columnOrders : List Order) (nullPrecedences : List NullOrder)
      (useLikeShiftAnd : Bool)
  | concatenateAggregate (input : PhysicalRelation Kind)
      (subqueries : List (PhysicalRelation Kind)) (keys : List Expression)
      (values : List (Kind × Expression)) (condition : Option Expression)
      (perfectHashing useLikeShiftAnd : Bool)
  | fetch (input : PhysicalRelation Kind) (offset count : Int)
  | unionAll (lhs rhs : PhysicalRelation Kind)
  | window (input : PhysicalRelation Kind) (subqueries : List (PhysicalRelation Kind))
      (aggrFunc : Kind) (identCols arguments partitionBy orderBy : List Expression)
      (orderDirs : List Order) (windowLowerBound windowUpperBound : WindowFrameBound)
      (useLikeShiftAnd : Bool)
  | shuffle (input : PhysicalRelation Kind) (subqueries : List (PhysicalRelation Kind))
      (shuffleCols : List Expression)
  | genIdentCol (input : PhysicalRelation Kind)
  | userDefined (children : List (PhysicalRelation Kind)) (taskFunctor : Nat)
      (lastChildBreakPipeline : Bool) (dataTypes : List DataType)

namespace PhysicalRelation

mutual

@[simp] def expressions : PhysicalRelation Kind → List Expression
  | .read subqueries _ _ partialFilter _ => partialFilter.toList ++ expressionsOf subqueries
  | .write input _ _ => input.expressions
  | .broadcastJoin left right subqueries _ condition _ _ _ _ leftFilterCondition
      rightFilterCondition _ _ _ =>
    left.expressions ++ right.expressions ++ expressionsOf subqueries ++ condition.toList ++
      leftFilterCondition.toList ++ rightFilterCondition.toList
  | .shuffleJoin left right subqueries _ condition _ _ _ _ =>
    left.expressions ++ right.expressions ++ expressionsOf subqueries ++ condition.toList
  | .project input subqueries outputExpressions _ =>
    input.expressions ++ expressionsOf subqueries ++ outputExpressions
  | .filter input subqueries condition _ _ =>
    input.expressions ++ expressionsOf subqueries ++ condition.toList
  | .concatenateSort input subqueries keys _ _ _ =>
    input.expressions ++ expressionsOf subqueries ++ keys
  | .concatenateAggregate input subqueries keys values condition _ _ =>
    input.expressions ++ expressionsOf subqueries ++ keys ++ values.map Prod.snd ++ condition.toList
  | .fetch input _ _ => input.expressions
  | .unionAll lhs rhs => lhs.expressions ++ rhs.expressions
  | .window input subqueries _ identCols arguments partitionBy orderBy _ _ _ _ =>
    input.expressions ++ expressionsOf subqueries ++ identCols ++ arguments ++ partitionBy ++
      orderBy
  | .shuffle input subqueries shuffleCols =>
    input.expressions ++ expressionsOf subqueries ++ shuffleCols
  | .genIdentCol input => input.expressions
  | .userDefined children _ _ _ => expressionsOf children

@[simp] def expressionsOf : List (PhysicalRelation Kind) → List Expression
  | [] => []
  | relation :: relations => relation.expressions ++ expressionsOf relations

end

mutual

def hasUserDefined : PhysicalRelation Kind → Bool
  | .read subqueries _ _ _ _ => anyUserDefined subqueries
  | .write input _ _ => input.hasUserDefined
  | .broadcastJoin left right subqueries _ _ _ _ _ _ _ _ _ _ _ =>
    left.hasUserDefined || right.hasUserDefined || anyUserDefined subqueries
  | .shuffleJoin left right subqueries _ _ _ _ _ _ =>
    left.hasUserDefined || right.hasUserDefined || anyUserDefined subqueries
  | .project input subqueries _ _ => input.hasUserDefined || anyUserDefined subqueries
  | .filter input subqueries _ _ _ => input.hasUserDefined || anyUserDefined subqueries
  | .concatenateSort input subqueries _ _ _ _ => input.hasUserDefined || anyUserDefined subqueries
  | .concatenateAggregate input subqueries _ _ _ _ _ =>
    input.hasUserDefined || anyUserDefined subqueries
  | .fetch input _ _ => input.hasUserDefined
  | .unionAll lhs rhs => lhs.hasUserDefined || rhs.hasUserDefined
  | .window input subqueries _ _ _ _ _ _ _ _ _ => input.hasUserDefined || anyUserDefined subqueries
  | .shuffle input subqueries _ => input.hasUserDefined || anyUserDefined subqueries
  | .genIdentCol input => input.hasUserDefined
  | .userDefined _ _ _ _ => true

def anyUserDefined : List (PhysicalRelation Kind) → Bool
  | [] => false
  | relation :: relations => relation.hasUserDefined || anyUserDefined relations

end

end PhysicalRelation

/-! ### Messages -/

/-- `proto::WindowFrameBound`. -/
structure BoundMessage where
  unbounded : Bool
  offset : Int

/-- `proto::PhysicalRelation`. A field that holds a relation and was not set reads as `notSet`. -/
inductive RelationMessage where
  | notSet
  | read (tableName : String) (columnNames : List String) (dataTypes : List DataTypeMessage)
      (partialFilter : Option Message) (subqueryRelations : List RelationMessage)
  | write (child : RelationMessage) (tableName : String) (columnNames : List String)
  | broadcastJoin (left right : RelationMessage) (subqueryRelations : List RelationMessage)
      (joinType : Int) (condition : Option Message) (projectionIndices : List Int)
      (broadcastPolicy uniqueKeysPolicy : Int) (perfectHashing : Bool)
      (leftFilterCondition rightFilterCondition : Option Message)
      (useHashMapCache useMarkJoin useLikeShiftAnd : Bool)
  | shuffleJoin (left right : RelationMessage) (subqueryRelations : List RelationMessage)
      (joinType : Int) (condition : Option Message) (projectionIndices : List Int)
      (uniqueKeysPolicy : Int) (perfectHashing useLikeShiftAnd : Bool)
  | project (child : RelationMessage) (subqueryRelations : List RelationMessage)
      (outputExpressions : List Message) (useLikeShiftAnd : Bool)
  | filter (child : RelationMessage) (subqueryRelations : List RelationMessage)
      (condition : Option Message) (projectionIndices : List Int) (useLikeShiftAnd : Bool)
  | concatenateSort (child : RelationMessage) (subqueryRelations : List RelationMessage)
      (keys : List Message) (columnOrders nullPrecedences : List Int) (useLikeShiftAnd : Bool)
  | concatenateAggregate (child : RelationMessage) (subqueryRelations : List RelationMessage)
      (keys : List Message) (values : List (Int × Message)) (condition : Option Message)
      (perfectHashing useLikeShiftAnd : Bool)
  | fetch (child : RelationMessage) (offset count : Int)
  | unionAll (left right : RelationMessage)
  | window (child : RelationMessage) (subqueryRelations : List RelationMessage)
      (aggregationKind : Int) (identCols arguments partitionBy orderBy : List Message)
      (orderDirs : List Int) (lowerBound upperBound : Option BoundMessage) (useLikeShiftAnd : Bool)
  | shuffle (child : RelationMessage) (subqueryRelations : List RelationMessage)
      (shuffleCols : List Message)
  | genIdentCol (child : RelationMessage)

/-! ### Enumerations

Enumerators are sent as the numbers they stand for, in the order of their declaration. A number
without an enumerator is left out of the model. -/

/-- `static_cast` to an enumeration. -/
def staticCast {α : Type} (enumerators : List α) (number : α → Int) (n : Int) : Except Failure α :=
  match enumerators.find? (number · = n) with
  | some a => .ok a
  | none => .error .outsideModel

/-- `static_cast<int32_t>` of a join type. -/
def joinTypeNumber : JoinType → Int
  | .inner => 0
  | .left => 1
  | .leftSemi => 2
  | .leftAnti => 3
  | .full => 4
  | .single => 5

def uniqueKeysPolicyNumber : UniqueKeysPolicy → Int
  | .none => 0
  | .right => 1
  | .left => 2
  | .either => 3

def broadcastPolicyNumber : BroadcastPolicy → Int
  | .right => 0
  | .left => 1

def orderNumber : Order → Int
  | .ascending => 0
  | .descending => 1

def nullOrderNumber : NullOrder → Int
  | .after => 0
  | .before => 1

def castJoinType : Int → Except Failure JoinType :=
  staticCast [.inner, .left, .leftSemi, .leftAnti, .full, .single] joinTypeNumber

def castUniqueKeysPolicy : Int → Except Failure UniqueKeysPolicy :=
  staticCast [.none, .right, .left, .either] uniqueKeysPolicyNumber

def castBroadcastPolicy : Int → Except Failure BroadcastPolicy :=
  staticCast [.right, .left] broadcastPolicyNumber

def castOrder : Int → Except Failure Order :=
  staticCast [.ascending, .descending] orderNumber

def castNullOrder : Int → Except Failure NullOrder :=
  staticCast [.after, .before] nullOrderNumber

@[simp] lemma castJoinType_number (joinType : JoinType) :
    castJoinType (joinTypeNumber joinType) = .ok joinType := by
  cases joinType <;> rfl

@[simp] lemma castUniqueKeysPolicy_number (policy : UniqueKeysPolicy) :
    castUniqueKeysPolicy (uniqueKeysPolicyNumber policy) = .ok policy := by
  cases policy <;> rfl

@[simp] lemma castBroadcastPolicy_number (policy : BroadcastPolicy) :
    castBroadcastPolicy (broadcastPolicyNumber policy) = .ok policy := by
  cases policy <;> rfl

lemma castOrder_number (order : Order) : castOrder (orderNumber order) = .ok order := by
  cases order <;> rfl

lemma castNullOrder_number (order : NullOrder) :
    castNullOrder (nullOrderNumber order) = .ok order := by
  cases order <;> rfl

lemma mapM_cast_map {α β : Type} {cast : β → Except Failure α} {number : α → β}
    (h : ∀ a, cast (number a) = .ok a) (as : List α) : (as.map number).mapM cast = .ok as := by
  induction as with
  | nil => rfl
  | cons a as ih =>
    rw [map_cons, mapM_cons, h, ih]
    rfl

/-- The numbers of `cudf::aggregation::Kind`, an enumeration of cuDF: casting the number of a kind
back gives the kind. -/
structure AggregationKinds (Kind : Type) where
  number : Kind → Int
  cast : Int → Kind
  cast_number : ∀ kind, cast (number kind) = kind

/-! ### Window bounds -/

def serializeBound : WindowFrameBound → BoundMessage
  | .unbounded => ⟨true, 0⟩
  | .bounded rows => ⟨false, rows⟩

def deserializeBound (pb : BoundMessage) : WindowFrameBound :=
  if pb.unbounded then .unbounded else .bounded pb.offset

@[simp] lemma deserializeBound_serializeBound (bound : WindowFrameBound) :
    deserializeBound (serializeBound bound) = bound := by
  cases bound <;> rfl

/-! ### Aggregations -/

def serializeValue (E : CudfEnums) (K : AggregationKinds Kind) (value : Kind × Expression) :
    Except Failure (Int × Message) := do
  let expression ← serializeExpression E value.2
  .ok (K.number value.1, expression)

def deserializeValue (E : CudfEnums) (K : AggregationKinds Kind) (v : Int × Message) :
    Except Failure (Kind × Expression) := do
  let expression ← deserializeExpression E v.2
  .ok (K.cast v.1, expression)

/-! ### Plans -/

mutual

def serializePhysicalPlan (E : CudfEnums) (K : AggregationKinds Kind) :
    PhysicalRelation Kind → Except Failure RelationMessage
  | .read subqueries columnNames tableName partialFilter dataTypes => do
    let filter ← partialFilter.mapM (serializeExpression E)
    let subs ← serializeSubqueries E K subqueries
    .ok (.read tableName columnNames (dataTypes.map serializeDataType) filter subs)
  | .write input columnNames tableName => do
    let child ← serializePhysicalPlan E K input
    .ok (.write child tableName columnNames)
  | .broadcastJoin left right subqueries joinType condition projectionIndices policy
      uniqueKeysPolicy perfectHashing leftFilterCondition rightFilterCondition useHashMapCache
      useMarkJoin useLikeShiftAnd => do
    let left ← serializePhysicalPlan E K left
    let right ← serializePhysicalPlan E K right
    let subs ← serializeSubqueries E K subqueries
    let condition ← condition.mapM (serializeExpression E)
    let leftFilter ← leftFilterCondition.mapM (serializeExpression E)
    let rightFilter ← rightFilterCondition.mapM (serializeExpression E)
    .ok (.broadcastJoin left right subs (joinTypeNumber joinType) condition projectionIndices
      (broadcastPolicyNumber policy) (uniqueKeysPolicyNumber uniqueKeysPolicy) perfectHashing
      leftFilter rightFilter useHashMapCache useMarkJoin useLikeShiftAnd)
  | .shuffleJoin left right subqueries joinType condition projectionIndices uniqueKeysPolicy
      perfectHashing useLikeShiftAnd => do
    let left ← serializePhysicalPlan E K left
    let right ← serializePhysicalPlan E K right
    let subs ← serializeSubqueries E K subqueries
    let condition ← condition.mapM (serializeExpression E)
    .ok (.shuffleJoin left right subs (joinTypeNumber joinType) condition projectionIndices
      (uniqueKeysPolicyNumber uniqueKeysPolicy) perfectHashing useLikeShiftAnd)
  | .project input subqueries outputExpressions useLikeShiftAnd => do
    let child ← serializePhysicalPlan E K input
    let subs ← serializeSubqueries E K subqueries
    let exprs ← outputExpressions.mapM (serializeExpression E)
    .ok (.project child subs exprs useLikeShiftAnd)
  | .filter input subqueries condition projectionIndices useLikeShiftAnd => do
    let child ← serializePhysicalPlan E K input
    let subs ← serializeSubqueries E K subqueries
    let condition ← condition.mapM (serializeExpression E)
    .ok (.filter child subs condition projectionIndices useLikeShiftAnd)
  | .concatenateSort input subqueries keys columnOrders nullPrecedences useLikeShiftAnd => do
    let child ← serializePhysicalPlan E K input
    let subs ← serializeSubqueries E K subqueries
    let keys ← keys.mapM (serializeExpression E)
    .ok (.concatenateSort child subs keys (columnOrders.map orderNumber)
      (nullPrecedences.map nullOrderNumber) useLikeShiftAnd)
  | .concatenateAggregate input subqueries keys values condition perfectHashing
      useLikeShiftAnd => do
    let child ← serializePhysicalPlan E K input
    let subs ← serializeSubqueries E K subqueries
    let keys ← keys.mapM (serializeExpression E)
    let values ← values.mapM (serializeValue E K)
    let condition ← condition.mapM (serializeExpression E)
    .ok (.concatenateAggregate child subs keys values condition perfectHashing useLikeShiftAnd)
  | .fetch input offset count => do
    let child ← serializePhysicalPlan E K input
    .ok (.fetch child offset count)
  | .unionAll lhs rhs => do
    let left ← serializePhysicalPlan E K lhs
    let right ← serializePhysicalPlan E K rhs
    .ok (.unionAll left right)
  | .window input subqueries aggrFunc identCols arguments partitionBy orderBy orderDirs
      windowLowerBound windowUpperBound useLikeShiftAnd => do
    let child ← serializePhysicalPlan E K input
    let subs ← serializeSubqueries E K subqueries
    let identCols ← identCols.mapM (serializeExpression E)
    let arguments ← arguments.mapM (serializeExpression E)
    let partitionBy ← partitionBy.mapM (serializeExpression E)
    let orderBy ← orderBy.mapM (serializeExpression E)
    .ok (.window child subs (K.number aggrFunc) identCols arguments partitionBy orderBy
      (orderDirs.map orderNumber) (some (serializeBound windowLowerBound))
      (some (serializeBound windowUpperBound)) useLikeShiftAnd)
  | .shuffle input subqueries shuffleCols => do
    let child ← serializePhysicalPlan E K input
    let subs ← serializeSubqueries E K subqueries
    let shuffleCols ← shuffleCols.mapM (serializeExpression E)
    .ok (.shuffle child subs shuffleCols)
  | .genIdentCol input => do
    let child ← serializePhysicalPlan E K input
    .ok (.genIdentCol child)
  | .userDefined _ _ _ _ => .error (.logicError "user_defined_relation cannot be serialized")

/-- The loops over the subqueries of a relation. -/
def serializeSubqueries (E : CudfEnums) (K : AggregationKinds Kind) :
    List (PhysicalRelation Kind) → Except Failure (List RelationMessage)
  | [] => .ok []
  | sub :: subs => do
    let m ← serializePhysicalPlan E K sub
    let ms ← serializeSubqueries E K subs
    .ok (m :: ms)

end

mutual

def deserializePhysicalPlan (E : CudfEnums) (K : AggregationKinds Kind) :
    RelationMessage → Except Failure (PhysicalRelation Kind)
  | .notSet => .error (.logicError "PhysicalRelation has no relation set")
  | .read tableName columnNames dataTypes partialFilter subqueryRelations => do
    let dataTypes ← dataTypes.mapM deserializeDataType
    let partialFilter ← partialFilter.mapM (deserializeExpression E)
    let subqueries ← deserializeSubqueries E K subqueryRelations
    .ok (.read subqueries columnNames tableName partialFilter dataTypes)
  | .write child tableName columnNames => do
    let child ← deserializePhysicalPlan E K child
    .ok (.write child columnNames tableName)
  | .broadcastJoin left right subqueryRelations joinType condition projectionIndices
      broadcastPolicy uniqueKeysPolicy perfectHashing leftFilterCondition rightFilterCondition
      useHashMapCache useMarkJoin useLikeShiftAnd => do
    let left ← deserializePhysicalPlan E K left
    let right ← deserializePhysicalPlan E K right
    let subqueries ← deserializeSubqueries E K subqueryRelations
    let condition ← condition.mapM (deserializeExpression E)
    let leftFilter ← leftFilterCondition.mapM (deserializeExpression E)
    let rightFilter ← rightFilterCondition.mapM (deserializeExpression E)
    let joinType ← castJoinType joinType
    let policy ← castBroadcastPolicy broadcastPolicy
    let uniqueKeysPolicy ← castUniqueKeysPolicy uniqueKeysPolicy
    .ok (.broadcastJoin left right subqueries joinType condition projectionIndices policy
      uniqueKeysPolicy perfectHashing leftFilter rightFilter useHashMapCache useMarkJoin
      useLikeShiftAnd)
  | .shuffleJoin left right subqueryRelations joinType condition projectionIndices
      uniqueKeysPolicy perfectHashing useLikeShiftAnd => do
    let left ← deserializePhysicalPlan E K left
    let right ← deserializePhysicalPlan E K right
    let subqueries ← deserializeSubqueries E K subqueryRelations
    let condition ← condition.mapM (deserializeExpression E)
    let joinType ← castJoinType joinType
    let uniqueKeysPolicy ← castUniqueKeysPolicy uniqueKeysPolicy
    .ok (.shuffleJoin left right subqueries joinType condition projectionIndices uniqueKeysPolicy
      perfectHashing useLikeShiftAnd)
  | .project child subqueryRelations outputExpressions useLikeShiftAnd => do
    let child ← deserializePhysicalPlan E K child
    let subqueries ← deserializeSubqueries E K subqueryRelations
    let exprs ← outputExpressions.mapM (deserializeExpression E)
    .ok (.project child subqueries exprs useLikeShiftAnd)
  | .filter child subqueryRelations condition projectionIndices useLikeShiftAnd => do
    let child ← deserializePhysicalPlan E K child
    let subqueries ← deserializeSubqueries E K subqueryRelations
    let condition ← condition.mapM (deserializeExpression E)
    .ok (.filter child subqueries condition projectionIndices useLikeShiftAnd)
  | .concatenateSort child subqueryRelations keys columnOrders nullPrecedences
      useLikeShiftAnd => do
    let child ← deserializePhysicalPlan E K child
    let subqueries ← deserializeSubqueries E K subqueryRelations
    let keys ← keys.mapM (deserializeExpression E)
    let orders ← columnOrders.mapM castOrder
    let nullOrders ← nullPrecedences.mapM castNullOrder
    .ok (.concatenateSort child subqueries keys orders nullOrders useLikeShiftAnd)
  | .concatenateAggregate child subqueryRelations keys values condition perfectHashing
      useLikeShiftAnd => do
    let child ← deserializePhysicalPlan E K child
    let subqueries ← deserializeSubqueries E K subqueryRelations
    let keys ← keys.mapM (deserializeExpression E)
    let values ← values.mapM (deserializeValue E K)
    let condition ← condition.mapM (deserializeExpression E)
    .ok (.concatenateAggregate child subqueries keys values condition perfectHashing
      useLikeShiftAnd)
  | .fetch child offset count => do
    let child ← deserializePhysicalPlan E K child
    .ok (.fetch child offset count)
  | .unionAll left right => do
    let left ← deserializePhysicalPlan E K left
    let right ← deserializePhysicalPlan E K right
    .ok (.unionAll left right)
  | .window child subqueryRelations aggregationKind identCols arguments partitionBy orderBy
      orderDirs lowerBound upperBound useLikeShiftAnd => do
    let child ← deserializePhysicalPlan E K child
    let subqueries ← deserializeSubqueries E K subqueryRelations
    let identCols ← identCols.mapM (deserializeExpression E)
    let arguments ← arguments.mapM (deserializeExpression E)
    let partitionBy ← partitionBy.mapM (deserializeExpression E)
    let orderBy ← orderBy.mapM (deserializeExpression E)
    let orderDirs ← orderDirs.mapM castOrder
    let lower := (lowerBound.map deserializeBound).getD .unbounded
    let upper := (upperBound.map deserializeBound).getD .unbounded
    .ok (.window child subqueries (K.cast aggregationKind) identCols arguments partitionBy orderBy
      orderDirs lower upper useLikeShiftAnd)
  | .shuffle child subqueryRelations shuffleCols => do
    let child ← deserializePhysicalPlan E K child
    let subqueries ← deserializeSubqueries E K subqueryRelations
    let shuffleCols ← shuffleCols.mapM (deserializeExpression E)
    .ok (.shuffle child subqueries shuffleCols)
  | .genIdentCol child => do
    let child ← deserializePhysicalPlan E K child
    .ok (.genIdentCol child)

def deserializeSubqueries (E : CudfEnums) (K : AggregationKinds Kind) :
    List RelationMessage → Except Failure (List (PhysicalRelation Kind))
  | [] => .ok []
  | sub :: subs => do
    let relation ← deserializePhysicalPlan E K sub
    let relations ← deserializeSubqueries E K subs
    .ok (relation :: relations)

end

/-! ### Round trip -/

/-- The expression is deserialized to what was serialized. -/
def ExpressionCarries (E : CudfEnums) (e : Expression) : Prop :=
  Carries (serializeExpression E) (deserializeExpression E) e

def userDefinedFailure : Failure := .logicError "user_defined_relation cannot be serialized"

variable {E : CudfEnums} {K : AggregationKinds Kind}

lemma carries_value {value : Kind × Expression} (h : ExpressionCarries E value.2) :
    Carries (serializeValue E K) (deserializeValue E K) value := by
  obtain ⟨m, hwrite, hread⟩ := h
  refine ⟨(K.number value.1, m), ?_, ?_⟩
  · simp [serializeValue, hwrite]
  · simp [deserializeValue, hread, K.cast_number]

lemma sends_values {values : List (Kind × Expression)}
    (h : ∀ e ∈ values.map Prod.snd, ExpressionCarries E e) :
    Sends userDefinedFailure false (·.mapM (serializeValue E K))
      (·.mapM (deserializeValue E K)) values :=
  Carries.repeated fun _ hvalue => carries_value (h _ (mem_map_of_mem hvalue))

lemma sends_repeated {es : List Expression} (h : ∀ e ∈ es, ExpressionCarries E e) :
    Sends userDefinedFailure false (·.mapM (serializeExpression E))
      (·.mapM (deserializeExpression E)) es :=
  Carries.repeated h

lemma sends_optional {e? : Option Expression} (h : ∀ e ∈ e?.toList, ExpressionCarries E e) :
    Sends userDefinedFailure false (·.mapM (serializeExpression E))
      (·.mapM (deserializeExpression E)) e? :=
  Carries.optional fun e he => h e (Option.mem_toList.2 he)

open PhysicalRelation in
mutual

/-- Every field of every relation that has a message comes back, and the visitor ends in the first
user-defined relation it comes to. -/
lemma sends_plan (E : CudfEnums) (K : AggregationKinds Kind) :
    ∀ plan : PhysicalRelation Kind, (∀ e ∈ plan.expressions, ExpressionCarries E e) →
      Sends userDefinedFailure plan.hasUserDefined (serializePhysicalPlan E K)
        (deserializePhysicalPlan E K) plan
  | .read subqueries _ _ partialFilter _, hexprs => by
    simp only [expressions, forall_mem_append] at hexprs
    simp only [Sends, serializePhysicalPlan]
    refine (sends_optional hexprs.1).bind fun filter hfilt => ?_
    refine (sends_subqueries E K subqueries hexprs.2).bind_last fun subs hsubs => ⟨_, rfl, ?_⟩
    simp [deserializePhysicalPlan, hfilt, hsubs,
      mapM_cast_map deserialize_dataType]
  | .write input _ _, hexprs => by
    simp only [Sends, serializePhysicalPlan]
    refine (sends_plan E K input hexprs).bind_last fun child hch => ⟨_, rfl, ?_⟩
    simp [deserializePhysicalPlan, hch]
  | .broadcastJoin left right subqueries _ condition _ _ _ _ leftFilter rightFilter _ _ _,
      hexprs => by
    simp only [expressions, forall_mem_append] at hexprs
    obtain ⟨⟨⟨⟨⟨hl, hr⟩, hs⟩, hc⟩, hlf⟩, hrf⟩ := hexprs
    simp only [Sends, serializePhysicalPlan, hasUserDefined, Bool.or_assoc]
    refine (sends_plan E K left hl).bind fun left hL => ?_
    refine (sends_plan E K right hr).bind fun right hR => ?_
    refine (sends_subqueries E K subqueries hs).bind_last fun subs hsubs => ?_
    refine (sends_optional hc).bind fun condition hcond => ?_
    refine (sends_optional hlf).bind fun leftFilter hleftFilter => ?_
    refine (sends_optional hrf).bind fun rightFilter hrightFilter => ⟨_, rfl, ?_⟩
    simp [deserializePhysicalPlan, hL, hR, hsubs, hcond, hleftFilter, hrightFilter]
  | .shuffleJoin left right subqueries _ condition _ _ _ _, hexprs => by
    simp only [expressions, forall_mem_append] at hexprs
    obtain ⟨⟨⟨hl, hr⟩, hs⟩, hc⟩ := hexprs
    simp only [Sends, serializePhysicalPlan, hasUserDefined, Bool.or_assoc]
    refine (sends_plan E K left hl).bind fun left hL => ?_
    refine (sends_plan E K right hr).bind fun right hR => ?_
    refine (sends_subqueries E K subqueries hs).bind_last fun subs hsubs => ?_
    refine (sends_optional hc).bind fun condition hcond => ⟨_, rfl, ?_⟩
    simp [deserializePhysicalPlan, hL, hR, hsubs, hcond]
  | .project input subqueries outputExpressions _, hexprs => by
    simp only [expressions, forall_mem_append] at hexprs
    simp only [Sends, serializePhysicalPlan]
    refine (sends_plan E K input hexprs.1.1).bind fun child hch => ?_
    refine (sends_subqueries E K subqueries hexprs.1.2).bind_last fun subs hsubs => ?_
    refine (sends_repeated hexprs.2).bind fun exprs hexprs => ⟨_, rfl, ?_⟩
    simp [deserializePhysicalPlan, hch, hsubs, hexprs]
  | .filter input subqueries condition _ _, hexprs => by
    simp only [expressions, forall_mem_append] at hexprs
    simp only [Sends, serializePhysicalPlan]
    refine (sends_plan E K input hexprs.1.1).bind fun child hch => ?_
    refine (sends_subqueries E K subqueries hexprs.1.2).bind_last fun subs hsubs => ?_
    refine (sends_optional hexprs.2).bind fun condition hcond => ⟨_, rfl, ?_⟩
    simp [deserializePhysicalPlan, hch, hsubs, hcond]
  | .concatenateSort input subqueries keys orders nullOrders _, hexprs => by
    simp only [expressions, forall_mem_append] at hexprs
    simp only [Sends, serializePhysicalPlan]
    refine (sends_plan E K input hexprs.1.1).bind fun child hch => ?_
    refine (sends_subqueries E K subqueries hexprs.1.2).bind_last fun subs hsubs => ?_
    refine (sends_repeated hexprs.2).bind fun keys hkeys => ⟨_, rfl, ?_⟩
    simp [deserializePhysicalPlan, hch, hsubs, hkeys, mapM_cast_map castOrder_number,
      mapM_cast_map castNullOrder_number]
  | .concatenateAggregate input subqueries keys values condition _ _, hexprs => by
    simp only [expressions, forall_mem_append] at hexprs
    obtain ⟨⟨⟨⟨hi, hs⟩, hk⟩, hv⟩, hc⟩ := hexprs
    simp only [Sends, serializePhysicalPlan]
    refine (sends_plan E K input hi).bind fun child hch => ?_
    refine (sends_subqueries E K subqueries hs).bind_last fun subs hsubs => ?_
    refine (sends_repeated hk).bind fun keys hkeys => ?_
    refine (sends_values hv).bind fun values hvals => ?_
    refine (sends_optional hc).bind fun condition hcond => ⟨_, rfl, ?_⟩
    simp [deserializePhysicalPlan, hch, hsubs, hkeys, hvals, hcond]
  | .fetch input _ _, hexprs => by
    simp only [Sends, serializePhysicalPlan]
    refine (sends_plan E K input hexprs).bind_last fun child hch => ⟨_, rfl, ?_⟩
    simp only [deserializePhysicalPlan, hch]
    rfl
  | .unionAll lhs rhs, hexprs => by
    simp only [expressions, forall_mem_append] at hexprs
    simp only [Sends, serializePhysicalPlan]
    refine (sends_plan E K lhs hexprs.1).bind fun left hL => ?_
    refine (sends_plan E K rhs hexprs.2).bind_last fun right hR => ⟨_, rfl, ?_⟩
    simp [deserializePhysicalPlan, hL, hR]
  | .window input subqueries _ identCols arguments partitionBy orderBy orderDirs _ _ _, hexprs => by
    simp only [expressions, forall_mem_append] at hexprs
    obtain ⟨⟨⟨⟨⟨hi, hs⟩, hic⟩, ha⟩, hp⟩, ho⟩ := hexprs
    simp only [Sends, serializePhysicalPlan]
    refine (sends_plan E K input hi).bind fun child hch => ?_
    refine (sends_subqueries E K subqueries hs).bind_last fun subs hsubs => ?_
    refine (sends_repeated hic).bind fun identCols hidents => ?_
    refine (sends_repeated ha).bind fun arguments hargs => ?_
    refine (sends_repeated hp).bind fun partitionBy hpartition => ?_
    refine (sends_repeated ho).bind fun orderBy horder => ⟨_, rfl, ?_⟩
    simp [deserializePhysicalPlan, hch, hsubs, hidents, hargs, hpartition, horder,
      mapM_cast_map castOrder_number, K.cast_number]
  | .shuffle input subqueries shuffleCols, hexprs => by
    simp only [expressions, forall_mem_append] at hexprs
    simp only [Sends, serializePhysicalPlan]
    refine (sends_plan E K input hexprs.1.1).bind fun child hch => ?_
    refine (sends_subqueries E K subqueries hexprs.1.2).bind_last fun subs hsubs => ?_
    refine (sends_repeated hexprs.2).bind fun cols hcols => ⟨_, rfl, ?_⟩
    simp [deserializePhysicalPlan, hch, hsubs, hcols]
  | .genIdentCol input, hexprs => by
    simp only [Sends, serializePhysicalPlan]
    refine (sends_plan E K input hexprs).bind_last fun child hch => ⟨_, rfl, ?_⟩
    simp only [deserializePhysicalPlan, hch]
    rfl
  | .userDefined _ _ _ _, _ => rfl

lemma sends_subqueries (E : CudfEnums) (K : AggregationKinds Kind) :
    ∀ plans : List (PhysicalRelation Kind), (∀ e ∈ expressionsOf plans, ExpressionCarries E e) →
      Sends userDefinedFailure (anyUserDefined plans) (serializeSubqueries E K)
        (deserializeSubqueries E K) plans
  | [], _ => ⟨[], rfl, rfl⟩
  | plan :: plans, hexprs => by
    simp only [expressionsOf, forall_mem_append] at hexprs
    simp only [Sends, serializeSubqueries]
    refine (sends_plan E K plan hexprs.1).bind fun m hplan => ?_
    refine (sends_subqueries E K plans hexprs.2).bind_last fun ms hplans => ⟨_, rfl, ?_⟩
    simp [deserializeSubqueries, hplan, hplans]

end

/-- A plan comes back as it was, and with all its fields, unless some relation of it is
user-defined, which has no message. -/
theorem deserializePhysicalPlan_serializePhysicalPlan (E : CudfEnums) (K : AggregationKinds Kind)
    (plan : PhysicalRelation Kind)
    (hexprs : ∀ e ∈ plan.expressions,
      (serializeExpression E e >>= deserializeExpression E) = .ok e) :
    (serializePhysicalPlan E K plan >>= deserializePhysicalPlan E K) =
      if plan.hasUserDefined then .error userDefinedFailure else .ok plan :=
  (sends_plan E K plan fun e he => carries_iff.2 (hexprs e he)).bind_read

/-- The kinds of aggregation the engine distinguishes, numbered in their order. -/
def AggregationKinds.listed : AggregationKinds AggregationKind where
  number kind := kind.ctorIdx
  cast n := AggregationKind.ofNat n.toNat
  cast_number kind := AggregationKind.ofNat_ctorIdx kind

/-- A filter over a table, with a condition over its column. -/
theorem deserializePhysicalPlan_filter : (serializePhysicalPlan .listed .listed
        (.filter (.read [] ["a"] "t" none [.int64]) [] (some (.isNull (.columnReference 0 "a")))
          [0] true) >>= deserializePhysicalPlan .listed .listed) =
      .ok (.filter (.read [] ["a"] "t" none [.int64]) []
        (some (.isNull (.columnReference 0 "a"))) [0] true) :=
  deserializePhysicalPlan_serializePhysicalPlan .listed .listed
    (.filter (.read [] ["a"] "t" none [.int64]) [] (some (.isNull (.columnReference 0 "a"))) [0]
      true)
    (by
      intro e he
      obtain rfl : e = .isNull (.columnReference 0 "a") := by simpa using he
      rfl)

/-- A user-defined relation over a table is not serialized. -/
theorem serializePhysicalPlan_userDefined :
    (∀ e ∈ (.userDefined [.read [] ["a"] "t" none [.int64]] 0 false [.int64] :
        PhysicalRelation AggregationKind).expressions,
      (serializeExpression .listed e >>= deserializeExpression .listed) = .ok e) ∧
    serializePhysicalPlan .listed .listed
        (.userDefined [.read [] ["a"] "t" none [.int64]] 0 false [.int64]) =
      .error (.logicError "user_defined_relation cannot be serialized") := by
  refine ⟨?_, by rw [serializePhysicalPlan]⟩
  simp

end Gqe.Rpc
