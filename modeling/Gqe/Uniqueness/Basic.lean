import Gqe.Aggregation.Basic
import Gqe.Lib.Odometer
import Mathlib.Data.Finset.Image
import Mathlib.Data.List.Sort

/-!
# Uniqueness propagation

The rule of `optimizer/rules/uniqueness_propagation.cpp`: from the leaves of a plan to its root, the
sets of columns that identify a row of a relation are derived from those of its children.
-/

namespace Gqe.Uniqueness

open List

/-! ### Relation properties -/

/-- `std::sort` and `std::unique`. -/
def sortKey (key : List Nat) : List Nat := (key.insertionSort (· ≤ ·)).dedup

@[simp] lemma mem_sortKey {key : List Nat} {c : Nat} : c ∈ sortKey key ↔ c ∈ key := by
  simp [sortKey]

lemma pairwise_sortKey (key : List Nat) : (sortKey key).Pairwise (· < ·) := by
  have hle : (sortKey key).Pairwise (· ≤ ·) :=
    (pairwise_insertionSort (· ≤ ·) key).sublist (dedup_sublist _)
  have hne : (sortKey key).Nodup := nodup_dedup _
  exact (hle.and hne).imp fun h => lt_of_le_of_ne h.1 h.2

lemma sortKey_ne_nil {key : List Nat} (h : key ≠ []) : sortKey key ≠ [] := by
  obtain ⟨c, hc⟩ := exists_mem_of_ne_nil key h
  exact ne_nil_of_mem (mem_sortKey.2 hc)

/-- `relation_properties`: the unique keys of a relation, each a set of columns in increasing
order. -/
@[ext] structure RelationProperties where
  uniqueKeys : List (List Nat)
  pairwise_lt : ∀ key ∈ uniqueKeys, key.Pairwise (· < ·)
  ne_nil : ∀ key ∈ uniqueKeys, key ≠ []
  nodup : uniqueKeys.Nodup

namespace RelationProperties

instance : EmptyCollection RelationProperties := ⟨⟨[], by simp, by simp, .nil⟩⟩

def addUniqueKey (p : RelationProperties) (key : List Nat) : RelationProperties :=
  if h : key = [] ∨ sortKey key ∈ p.uniqueKeys then p
  else
    { uniqueKeys := p.uniqueKeys ++ [sortKey key]
      pairwise_lt := by
        simp only [mem_append, mem_singleton]
        rintro k (hk | rfl)
        · exact p.pairwise_lt k hk
        · exact pairwise_sortKey key
      ne_nil := by
        simp only [mem_append, mem_singleton]
        rintro k (hk | rfl)
        · exact p.ne_nil k hk
        · exact sortKey_ne_nil fun hk => h (.inl hk)
      nodup := by
        refine nodup_append.2 ⟨p.nodup, nodup_singleton _, fun k hk k' hk' => ?_⟩
        rw [mem_singleton.1 hk']
        exact fun heq => h (.inr (heq ▸ hk)) }

/-- The properties after keys were added one after another. -/
def ofKeys (keys : List (List Nat)) : RelationProperties := keys.foldl addUniqueKey ∅

/-- The columns that are a key by themselves. -/
def uniqueColumns (p : RelationProperties) : List Nat :=
  p.uniqueKeys.filterMap fun key => match key with
    | [c] => some c
    | _ => none

end RelationProperties

variable {V : Type*}

/-! ### Renumbering of keys -/

/-- The column a plain column reference refers to. -/
def columnIdx? : Expr V → Option Nat
  | .columnReference i => some i
  | _ => none

/-- The positions at which an output materialises column `c`; `columns` has the input column of each
output that is a plain column. -/
def inToOuts (columns : List (Option Nat)) (c : Nat) : List Nat :=
  (columns.zipIdx.filter fun x => x.1 = some c).map (·.2)

/-- `emit_remapped_keys`: the choices of one output for each column of a key, none if a column has
no output. -/
def emitRemappedKeys (key : List Nat) (inToOuts : Nat → List Nat) : List (List Nat) :=
  if h : ∀ o ∈ key.map inToOuts, o ≠ [] then
    Odometer.run (key.map inToOuts) (Odometer.start _) (Odometer.start_inBounds h)
  else []

/-- The keys of a relation that outputs columns of its input. -/
def remapKeys (columns : List (Option Nat)) (p : RelationProperties) : List (List Nat) :=
  p.uniqueKeys.flatMap fun key => emitRemappedKeys key (inToOuts columns)

def visitProject (outputExpressions : List (Expr V)) (child : RelationProperties) :
    List (List Nat) :=
  remapKeys (outputExpressions.map columnIdx?) child

def visitFilter (projectionIndices : List Nat) (child : RelationProperties) : List (List Nat) :=
  remapKeys (projectionIndices.map some) child

/-- `_propagate_single_child`, for the relations that keep their columns. -/
def propagateSingleChild (child : RelationProperties) : List (List Nat) := child.uniqueKeys

def visitSet (setOperator : SetOperator) (numCols : Nat) (left : RelationProperties) :
    List (List Nat) :=
  match setOperator with
  | .union => [List.range numCols]
  | .unionAll => []
  | .intersect | .minus => left.uniqueKeys

/-- Keys of the catalog whose columns are all read. -/
def visitRead (catalogKeys : List (List String)) (columnNames : List String) : List (List Nat) :=
  catalogKeys.filterMap fun key => key.mapM fun name => columnNames.idxOf? name

/-! ### Aggregations -/

/-- `is_unique_expression`, over the given column types; `none` where a type cannot be computed. -/
def isUniqueExpression (uniqueInputCols : List Nat) (columnTypes : Nat → DataType) :
    Expr V → Option Bool
  | .columnReference i => some (decide (i ∈ uniqueInputCols))
  | .binaryOp op lhs rhs =>
    if op = .add ∨ op = .sub then do
      let lhsType ← lhs.dataType columnTypes
      if !lhsType.isIntegral then return false
      let rhsType ← rhs.dataType columnTypes
      if !rhsType.isIntegral then return false
      match lhs, rhs with
      | .literal _ _ _, rhs => isUniqueExpression uniqueInputCols columnTypes rhs
      | lhs, .literal _ _ _ => isUniqueExpression uniqueInputCols columnTypes lhs
      | _, _ => return false
    else some false
  | .unaryOp op _ => some (decide (op = .bitInvert))
  | .cast _ _ | .ifThenElse _ _ _ | .isNull _ | .literal _ _ _ | .scalarFunction _ _
  | .inPredicate _ _ => some false

/-- The columns with a key expression that is found to be unique. -/
def uniqueExpressions (uniqueInputCols : List Nat) (columnTypes : Nat → DataType)
    (keys : List (Expr V)) : Option (List Nat) := do
  let found ← keys.zipIdx.mapM fun (e, idx) =>
    (isUniqueExpression uniqueInputCols columnTypes e).map fun unique =>
      if unique then [idx] else []
  return found.flatten

/-- `visit(aggregate_relation)`. The types handed to `is_unique_expression` are those of the
aggregation itself; they are computed for two or more keys only. -/
def visitAggregate (keys : List (Expr V)) (numMeasures : Nat)
    (columnTypes : Option (Nat → DataType)) (child : RelationProperties) :
    Option (List (List Nat)) :=
  match keys with
  | [] => some ((List.range numMeasures).map ([·]))
  | [_] => some [[0]]
  | keys => do
    let unique ← uniqueExpressions child.uniqueColumns (← columnTypes) keys
    return List.range keys.length :: unique.map ([·])

/-! ### Joins -/

def collectEquijoinPairs (nLeftCols : Nat) : Expr V → Finset (Nat × Nat)
  | .binaryOp .equal (.columnReference c₀) (.columnReference c₁) =>
    if decide (c₀ < nLeftCols) ≠ decide (c₁ < nLeftCols) then {(min c₀ c₁, max c₀ c₁)} else ∅
  | .binaryOp op lhs rhs =>
    match op with
    | .logicalAnd | .nullLogicalAnd =>
      collectEquijoinPairs nLeftCols lhs ∪ collectEquijoinPairs nLeftCols rhs
    | .logicalOr | .nullLogicalOr =>
      collectEquijoinPairs nLeftCols lhs ∩ collectEquijoinPairs nLeftCols rhs
    | _ => ∅
  | _ => ∅

/-- `check_join_condition_for_propagation`: whether the keys of the left and of the right input are
propagated. -/
def checkJoinConditionForPropagation (uniqueInputCols : List Nat) (nLeftCols : Nat) :
    Expr V → Bool × Bool
  | .binaryOp .equal (.columnReference c₀) (.columnReference c₁) =>
    (decide ((c₀ ∈ uniqueInputCols ∧ nLeftCols ≤ c₀) ∨ (c₁ ∈ uniqueInputCols ∧ nLeftCols ≤ c₁)),
      decide ((c₀ ∈ uniqueInputCols ∧ c₀ < nLeftCols) ∨ (c₁ ∈ uniqueInputCols ∧ c₁ < nLeftCols)))
  | .binaryOp op lhs rhs =>
    let l := checkJoinConditionForPropagation uniqueInputCols nLeftCols lhs
    let r := checkJoinConditionForPropagation uniqueInputCols nLeftCols rhs
    match op with
    | .logicalAnd | .nullLogicalAnd => (l.1 || r.1, l.2 || r.2)
    | .logicalOr | .nullLogicalOr => (l.1 && r.1, l.2 && r.2)
    | _ => (false, false)
  | _ => (false, false)

def anyCompositeCovered (p : RelationProperties) (covered : Finset Nat) : Bool :=
  p.uniqueKeys.any fun key => decide (2 ≤ key.length) && key.all (decide <| · ∈ covered)

/-- Whether the keys of the two inputs of an inner join are propagated. -/
def innerJoinPropagation (condition : Expr V) (nLeftCols : Nat) (left right : RelationProperties) :
    Bool × Bool :=
  let uniqueInputCols := left.uniqueColumns ++ right.uniqueColumns.map (· + nLeftCols)
  let flags := checkJoinConditionForPropagation uniqueInputCols nLeftCols condition
  let pairs := collectEquijoinPairs nLeftCols condition
  (flags.1 || anyCompositeCovered right (pairs.image fun p => p.2 - nLeftCols),
    flags.2 || anyCompositeCovered left (pairs.image (·.1)))

/-- Whether the keys of the two inputs of a join are propagated; `none` if the join type propagates
nothing. -/
def joinPropagation (condition : Expr V) (joinType : JoinType) (nLeftCols : Nat)
    (left right : RelationProperties) : Option (Bool × Bool) :=
  match joinType with
  | .inner => some (innerJoinPropagation condition nLeftCols left right)
  | .leftSemi | .leftAnti | .single => some (true, false)
  | .left | .full => none

def visitJoin (condition : Expr V) (joinType : JoinType) (projectionIndices : List Nat)
    (nLeftCols : Nat) (left right : RelationProperties) : List (List Nat) :=
  match joinPropagation condition joinType nLeftCols left right with
  | none => []
  | some (propagateLeft, propagateRight) =>
    let emit (key : List Nat) := emitRemappedKeys key (inToOuts (projectionIndices.map some))
    (if propagateLeft then left.uniqueKeys.flatMap emit else []) ++ (if propagateRight then
        right.uniqueKeys.flatMap fun key => emit (key.map (· + nLeftCols)) else [])

/-! ### Plans -/

/-- What the rule takes from outside the plan: the keys of the catalog, `cudf::detail::target_type`,
and what a read beyond a vector of types finds. -/
structure Rule where
  catalogKeys : (tableName : String) → List (List String)
  targetType : DataType → AggregationKind → DataType
  beyond : Nat → DataType

/-- `data_types` of an aggregation. -/
def Rule.aggregateDataTypes (rule : Rule) (keys : List (Expr V))
    (measures : List (AggregationKind × Expr V)) (τ : Nat → DataType) : Option (List DataType) := do
  let keyTypes ← keys.mapM (·.dataType τ)
  let measureTypes ← measures.mapM fun (kind, e) =>
    if kind = .mean then some .float64
    else do
      let second ← (Aggregation.getSecondAggregationKind (fun _ => 0) kind).toOption
      return rule.targetType (rule.targetType (← e.dataType τ) kind) second
  return keyTypes ++ measureTypes

/-- `data_types` of a relation, from those of its children. -/
def Rule.dataTypes (rule : Rule) (op : RelOp V) (children : List (List DataType)) :
    Option (List DataType) :=
  let typeOf (types : List DataType) (i : Nat) := types.getD i .empty
  match op, children with
  | .read _ _ types _, _ | .write _ _ types, _ | .userDefined _ types, _ => some types
  | .filter _ p, [t] => some (p.map (typeOf t))
  | .project es, [t] => es.mapM (·.dataType (typeOf t))
  | .join _ .leftSemi p, [l, _] | .join _ .leftAnti p, [l, _] => some (p.map (typeOf l))
  | .join _ _ p, [l, r] => some (p.map (typeOf (l ++ r)))
  | .aggregate keys measures, [t] => rule.aggregateDataTypes keys measures (typeOf t)
  | .sort _ _ _, [t] | .fetch _ _, [t] | .set _, [t, _] => some t
  | .window kind arguments _ _ _ _ _, [t] =>
    match arguments with
    | e :: _ => (e.dataType (typeOf t)).map fun s => t ++ [rule.targetType s kind]
    | [] => if kind = .rank then some (t ++ [.int32]) else none
  | _, _ => none

/-- The keys the visitor adds to a relation, given the types of its children, `none` where they
cannot be computed, and their properties. -/
def Rule.emittedKeys (rule : Rule) (op : RelOp V)
    (children : List (Option (List DataType) × RelationProperties)) : Option (List (List Nat)) :=
  match op, children with
  | .read tableName names _ _, _ => some (visitRead (rule.catalogKeys tableName) names)
  | .userDefined _ _, _ => some []
  | .filter _ p, [(_, c)] => some (visitFilter p c)
  | .project es, [(_, c)] => some (visitProject es c)
  | .join condition type p, [(types, l), (_, r)] =>
    types.map fun types => visitJoin condition type p types.length l r
  | .aggregate keys measures, [(types, c)] =>
    let columnTypes := do
      let types ← types
      let outputTypes ← rule.aggregateDataTypes keys measures fun i => types.getD i .empty
      return fun i => outputTypes.getD i (rule.beyond i)
    visitAggregate keys measures.length columnTypes c
  | .set .union, [(types, l), (_, _)] => types.map fun types => visitSet .union types.length l
  | .set setOperator, [(_, l), (_, _)] => some (visitSet setOperator 0 l)
  | .fetch _ _, [(_, c)] | .sort _ _ _, [(_, c)] | .window _ _ _ _ _ _ _, [(_, c)]
  | .write _ _ _, [(_, c)] => some (propagateSingleChild c)
  | _, _ => none

/-- Whether the visitor reports that the rule was applied at a relation. -/
def applied (op : RelOp V) (emitted : List (List Nat)) : Bool :=
  match op with
  | .read _ _ _ _ => true
  | _ => !emitted.isEmpty

mutual

/-- Visit a plan after its children and subqueries: its types, its properties, and whether the rule
was applied. -/
def Rule.visit (rule : Rule) : Plan V → Option (Option (List DataType) × RelationProperties × Bool)
  | .node op children subqueries => do
    let cs ← rule.visitList children
    let ss ← rule.visitList subqueries
    let keys ← rule.emittedKeys op (cs.map fun c => (c.1, c.2.1))
    return ((cs.mapM Prod.fst).bind (rule.dataTypes op), .ofKeys keys,
      (cs ++ ss).any (·.2.2) || applied op keys)

def Rule.visitList (rule : Rule) :
    List (Plan V) → Option (List (Option (List DataType) × RelationProperties × Bool))
  | [] => some []
  | p :: ps => do return (← rule.visit p) :: (← rule.visitList ps)

end

end Gqe.Uniqueness
