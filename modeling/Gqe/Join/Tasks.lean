import Gqe.Join.Condition
import Gqe.Lib.ListJoin
import Gqe.TaskGraph.Builder

/-!
# Join tasks

`join_task` and `materialize_join_from_position_lists_task` (`executor/join.cpp`,
`executor/join.cu`) without a mark join, unique keys or filters, and the tasks of a broadcast join
(`executor/task_graph.cpp`) run on partitioned inputs.
-/

namespace Gqe.Join

open TaskGraph (BroadcastPolicy)

variable {V : Type}

/-! ### Calls of cuDF -/

def cellsEqual [DecidableEq V] : NullEquality → Option V → Option V → Bool
  | .equal, a, b => a = b
  | .unequal, a, b => a.isSome && a = b

def keysEqual [DecidableEq V] (compareNulls : NullEquality) (left right : Row V) : Bool :=
  (left.zip right).all fun (a, b) => cellsEqual compareNulls a b

/-- What a join of cuDF is given: keys, two tables with a predicate, or both. A cached call is one
of a `cudf::hash_join` that was built before. -/
inductive JoinCall (V : Type) where
  | equality (cached : Bool) (leftKeys rightKeys : KeyTable V) (compareNulls : NullEquality)
  | mixed (leftKeys rightKeys : KeyTable V) (left right : Table V) (predicate : Ast V)
      (compareNulls : NullEquality)
  | conditional (left right : Table V) (predicate : Ast V)

namespace JoinCall

def numLeft : JoinCall V → Nat
  | .equality _ leftKeys _ _ => leftKeys.rows.length
  | .mixed leftKeys _ _ _ _ _ => leftKeys.rows.length
  | .conditional left _ _ => left.numRows

def numRight : JoinCall V → Nat
  | .equality _ _ rightKeys _ => rightKeys.rows.length
  | .mixed _ rightKeys _ _ _ _ => rightKeys.rows.length
  | .conditional _ right _ => right.numRows

/-- Two rows match, by their positions, given on which rows a predicate is TRUE. -/
def holds [DecidableEq V] (isTrue : Ast V → Row V → Row V → Bool) (i j : Nat) : JoinCall V → Bool
  | .equality _ leftKeys rightKeys compareNulls =>
    keysEqual compareNulls (leftKeys.rows.getD i []) (rightKeys.rows.getD j [])
  | .mixed leftKeys rightKeys left right predicate compareNulls =>
    keysEqual compareNulls (leftKeys.rows.getD i []) (rightKeys.rows.getD j []) &&
      isTrue predicate (left.rows.getD i []) (right.rows.getD j [])
  | .conditional left right predicate =>
    isTrue predicate (left.rows.getD i []) (right.rows.getD j [])

end JoinCall

/-- What is left to cuDF: expressions, predicates on two rows, and joins, which return the positions
of the rows of the result in some order. -/
structure CudfJoins (V : Type) [LinearOrder V] where
  expressions : Cudf V
  /-- The predicate is TRUE on a row of the left and a row of the right table. -/
  isTrue : Ast V → Row V → Row V → Bool
  innerJoin : JoinCall V → List (Nat × Nat)
  leftJoin : JoinCall V → List (Nat × Option Nat)
  /-- No broadcast join comes to this. -/
  fullJoin : JoinCall V → List (Option Nat × Option Nat)
  semiJoin : JoinCall V → List Nat
  antiJoin : JoinCall V → List Nat
  innerJoin_perm (c : JoinCall V) : (innerJoin c).Perm
    (ListJoin.inner (c.holds isTrue · ·) (.range c.numLeft) (.range c.numRight))
  leftJoin_perm (c : JoinCall V) : (leftJoin c).Perm
    (ListJoin.leftOuter (c.holds isTrue · ·) (.range c.numLeft) (.range c.numRight))
  semiJoin_perm (c : JoinCall V) : (semiJoin c).Perm
    (ListJoin.semi (c.holds isTrue · ·) (.range c.numLeft) (.range c.numRight))
  antiJoin_perm (c : JoinCall V) : (antiJoin c).Perm
    (ListJoin.anti (c.holds isTrue · ·) (.range c.numLeft) (.range c.numRight))

/-- Joins by nested loops, for concrete evaluations. -/
def CudfJoins.nestedLoops [LinearOrder V] (expressions : Cudf V)
    (isTrue : Ast V → Row V → Row V → Bool) : CudfJoins V where
  expressions := expressions
  isTrue := isTrue
  innerJoin c := ListJoin.inner (c.holds isTrue · ·) (.range c.numLeft) (.range c.numRight)
  leftJoin c := ListJoin.leftOuter (c.holds isTrue · ·) (.range c.numLeft) (.range c.numRight)
  fullJoin c :=
    (ListJoin.leftOuter (c.holds isTrue · ·) (.range c.numLeft) (.range c.numRight)).map
        (Prod.map some id) ++
      (ListJoin.anti (fun j i => c.holds isTrue i j) (.range c.numRight) (.range c.numLeft)).map
        fun j => (none, some j)
  semiJoin c := ListJoin.semi (c.holds isTrue · ·) (.range c.numLeft) (.range c.numRight)
  antiJoin c := ListJoin.anti (c.holds isTrue · ·) (.range c.numLeft) (.range c.numRight)
  innerJoin_perm _ := .rfl
  leftJoin_perm _ := .rfl
  semiJoin_perm _ := .rfl
  antiJoin_perm _ := .rfl

variable [LinearOrder V] (J : CudfJoins V)

/-! ### The join task -/

inductive BuildLocation where
  | left
  | right
  deriving DecidableEq

/-- `join_task`; the unique-keys policy is `none`, there are no filters and no mark join. -/
structure JoinTask (V : Type) where
  joinType : JoinType
  condition : Expr V
  projectionIndices : List Nat
  hashMapCache : Option BuildLocation
  materializeOutput : Bool
  perfectHashing : Bool

/-- The positions of the rows of the result; a position that is out of bounds is none. -/
inductive Indices where
  | both (indices : List (Option Nat × Option Nat))
  | left (indices : List Nat)
  deriving DecidableEq

structure HashJoinImpl (V : Type) where
  build : KeyTable V
  compareNulls : NullEquality

/-- `hash_join_impl::probe`, with the positions of the probe side first. -/
def HashJoinImpl.probe (impl : HashJoinImpl V) (probeKeys : KeyTable V) (joinType : JoinType) :
    Except Failure (List (Option Nat × Option Nat)) :=
  let call := JoinCall.equality true probeKeys impl.build impl.compareNulls
  match joinType with
  | .inner => .ok ((J.innerJoin call).map (Prod.map some some))
  | .left => .ok ((J.leftJoin call).map (Prod.map some id))
  | .full => .ok (J.fullJoin call)
  | _ => .error (.throws "Unsupported join type for hash_join_impl")

/-- `is_separate_hash_map_supported` without a mark join. -/
@[simp] def isSeparateHashMapSupported (joinType : JoinType) : Bool :=
  joinType = .inner || joinType = .left || joinType = .full

/-- The path of `join_task::execute` with a cached hash map, which the first task builds. -/
def cachedIndices (side : BuildLocation) (cache : Option (HashJoinImpl V))
    (keys : EvaluatedKeys V) (joinType : JoinType) :
    Except Failure (Indices × Option (HashJoinImpl V)) := do
  let compareNulls ← keys.condition.getCompareNulls
  match side with
  | .left =>
    let impl := cache.getD ⟨keys.leftKeys, compareNulls⟩
    let indices ← impl.probe J keys.rightKeys joinType
    .ok (.both (indices.map Prod.swap), some impl)
  | .right =>
    let impl := cache.getD ⟨keys.rightKeys, compareNulls⟩
    let indices ← impl.probe J keys.leftKeys joinType
    .ok (.both indices, some impl)

/-- A switch over the join types with the calls of one kind. -/
def callIndices (call : JoinCall V) (unknown : String) : JoinType → Except Failure Indices
  | .inner => .ok (.both ((J.innerJoin call).map (Prod.map some some)))
  | .left => .ok (.both ((J.leftJoin call).map (Prod.map some id)))
  | .leftSemi => .ok (.left (J.semiJoin call))
  | .leftAnti => .ok (.left (J.antiJoin call))
  | .full => .ok (.both (J.fullJoin call))
  | .single => .error (.throws unknown)

/-- The switch for equalities only, which takes care of empty inputs itself. -/
def equalityIndices (task : JoinTask V) (keys : EvaluatedKeys V) : Except Failure Indices := do
  let compareNulls ← keys.condition.getCompareNulls
  let call := JoinCall.equality false keys.leftKeys keys.rightKeys compareNulls
  if task.joinType = .inner ∧ task.perfectHashing then
    .error (.throws "Perfect hashing requires that at least one side has unique keys")
  else if task.joinType = .leftSemi ∧ (keys.rightKeys.rows = [] ∨ keys.leftKeys.rows = []) then
    .ok (.left [])
  else if task.joinType = .leftAnti ∧ (keys.rightKeys.rows = [] ∨ keys.leftKeys.rows = []) then
    .ok (.left (.range keys.leftKeys.rows.length))
  else callIndices J call "Unknown join type for equality join" task.joinType

/-- The path of `join_task::execute` that builds the hash map from scratch. -/
def fallbackIndices (task : JoinTask V) (left right : Table V) (keys : EvaluatedKeys V) :
    Except Failure Indices :=
  match keys.condition.nonEqualityConditions with
  | [] => equalityIndices J task keys
  | predicate :: predicates => do
    let predicate ← parsePredicates left.numColumns predicate predicates
    if keys.condition.leftKeyExprs = [] then
      callIndices J (.conditional left right predicate)
        "Unknown join type for conditional join" task.joinType
    else
      let compareNulls ← keys.condition.getCompareNulls
      callIndices J (.mixed keys.leftKeys keys.rightKeys left right predicate compareNulls)
        "Unknown join type for mixed-condition join" task.joinType

/-- A gathered row; a position out of bounds gives NULLs. -/
def gatherRow (t : Table V) : Option Nat → Row V
  | some i => t.rows.getD i []
  | none => Row.nulls t.numColumns

/-- `materialize`. Gathering a column of the right table by no positions gives a column without
rows, which makes no table with the columns of the left one. -/
def materialize (left right : Table V) (indices : Indices) (projectionIndices : List Nat) :
    Except Failure (Table V) :=
  let types (i : Nat) := (left.types ++ right.types).getD i .empty
  if ∃ c ∈ projectionIndices, left.numColumns + right.numColumns ≤ c then
    .error (.throws "Projection indices are out of bounds for join materialization")
  else
    match indices with
    | .both indices => .ok (.materialize types
        (indices.map fun (i, j) => gatherRow left i ++ gatherRow right j) projectionIndices)
    | .left indices =>
      if indices ≠ [] ∧ ∃ c ∈ projectionIndices, left.numColumns ≤ c then
        .error (.throws "Column size mismatch")
      else .ok (.materialize types (indices.map fun i => gatherRow left (some i))
        projectionIndices)

/-- What a task emits: a table, or positions of the left table (and of the right one). -/
inductive TaskResult (V : Type) where
  | table (t : Table V)
  | positions (indices : Indices)

/-- The positions of the rows of the result, and the hash map in the cache after the task. -/
def JoinTask.joinIndices (task : JoinTask V) (cache : Option (HashJoinImpl V))
    (left right : Table V)
    (keys : EvaluatedKeys V) : Except Failure (Indices × Option (HashJoinImpl V)) :=
  match task.hashMapCache with
  | some side =>
    if keys.condition.nonEqualityConditions = [] ∧ isSeparateHashMapSupported task.joinType then
      cachedIndices J side cache keys task.joinType
    else (·, cache) <$> fallbackIndices J task left right keys
  | none => (·, cache) <$> fallbackIndices J task left right keys

/-- `join_task::execute`, given the hash map in the cache, if any. -/
def JoinTask.execute (task : JoinTask V) (cache : Option (HashJoinImpl V)) (left right : Table V) :
    Except Failure (TaskResult V × Option (HashJoinImpl V)) := do
  let keys ← addJoinCondition J.expressions left right task.condition
  let (indices, cache) ← task.joinIndices J cache left right keys
  if task.joinType = .single then .error (.throws "Unknown join type for materialization")
  else if task.materializeOutput then do
    let t ← materialize left right indices task.projectionIndices
    .ok (.table t, cache)
  else .ok (.positions indices, cache)

/-! ### Merging position lists -/

def setBooleanMask (mask : List Bool) (indices : List Nat) : List Bool :=
  indices.foldl (fun mask i => mask.set i true) mask

/-- `increment_counts`; the threads of the kernel do not meet, since the indices are unique. -/
def incrementCounts (counts : List Nat) (indices : List Nat) : List Nat :=
  indices.foldl (fun counts i => counts.modify i (· + 1)) counts

/-- `cudf::apply_boolean_mask` on the rows of a table. -/
def applyBooleanMask (rows : List (Row V)) (mask : List Bool) : List (Row V) :=
  ((rows.zip mask).filter (·.2)).map (·.1)

/-- The single column of positions that a join task has emitted. -/
def TaskResult.positionColumn : TaskResult V → Except Failure (List Nat)
  | .positions (.left indices) => .ok indices
  | _ =>
    .error (.throws ("materialize_join_from_position_lists_task expects position list table " ++
      "to have a single column"))

/-- `materialize_join_from_position_lists_task::execute`. -/
def materializeJoinFromPositionLists (joinType : JoinType) (left : Table V)
    (positionLists : List (TaskResult V)) (projectionIndices : List Nat) :
    Except Failure (Table V) := do
  let lists ← positionLists.mapM TaskResult.positionColumn
  let mask := if joinType = .leftAnti then
      (lists.foldl incrementCounts (.replicate left.numRows 0)).map
        fun count => decide (count = lists.length)
    else lists.foldl setBooleanMask (.replicate left.numRows false)
  if ∃ c ∈ projectionIndices, left.numColumns ≤ c then
    .error (.throws "vector::_M_range_check")
  else .ok (.materialize left.typeOf (applyBooleanMask left.rows mask) projectionIndices)

/-! ### Broadcast joins -/

/-- An input in partitions of one schema, at least one. -/
structure Partitions (V : Type) where
  types : List DataType
  parts : List (Table V)
  nonempty : parts ≠ []
  types_eq : ∀ t ∈ parts, t.types = types

omit [LinearOrder V] in
def Partitions.whole (p : Partitions V) : Table V where
  types := p.types
  rows := p.parts.flatMap (·.rows)
  length_row := by
    intro r hr
    obtain ⟨t, ht, hr⟩ := List.mem_flatMap.1 hr
    rw [t.length_row r hr, p.types_eq t ht]
  rows_of_no_columns := by
    intro h
    rw [List.flatMap_eq_nil_iff]
    intro t ht
    exact t.rows_of_no_columns ((p.types_eq t ht).trans h)

/-- `broadcast_join_relation`, with the parameters of the query that bear on it. -/
structure BroadcastJoin (V : Type) where
  joinType : JoinType
  condition : Expr V
  projectionIndices : List Nat
  policy : BroadcastPolicy
  cacheEnabled : Bool
  perfectHashing : Bool

/-- The join tasks one after another, with the hash map they share. -/
def runJoinTasks (task : JoinTask V) :
    Option (HashJoinImpl V) → List (Table V × Table V) → Except Failure (List (TaskResult V))
  | _, [] => .ok []
  | cache, (left, right) :: rest => do
    let (result, cache) ← task.execute J cache left right
    let results ← runJoinTasks task cache rest
    .ok (result :: results)

namespace BroadcastJoin

variable (relation : BroadcastJoin V)

/-- The join tasks of a relation that builds its hash maps on one side. -/
def joinTask (side : BuildLocation) (materializeOutput : Bool) : JoinTask V where
  joinType := relation.joinType
  condition := relation.condition
  projectionIndices := relation.projectionIndices
  hashMapCache := if relation.cacheEnabled then some side else none
  materializeOutput := materializeOutput
  perfectHashing := relation.perfectHashing

/-- Semi and anti joins that broadcast the left table are materialized from position lists. -/
def separateMaterialization : Bool :=
  relation.joinType = .leftSemi || relation.joinType = .leftAnti

/-- The results of the tasks that `visit(broadcast_join_relation)` generates, for inputs in
partitions. The broadcasted input is concatenated. -/
def run (left right : Partitions V) : Except Failure (List (TaskResult V)) :=
  if relation.joinType = .full ∨ relation.joinType = .single then
    .error (.throws "Broadcast join does not support full join or single join")
  else
    match relation.policy with
    | .right => runJoinTasks J (relation.joinTask .right true) none
        (left.parts.map fun l => (l, right.whole))
    | .left =>
      if relation.joinType ≠ .inner ∧ relation.joinType ≠ .leftSemi ∧
          relation.joinType ≠ .leftAnti then
        .error (.throws ("Broadcast join does not support left broadcast for this join; only " ++
          "inner/semi/anti join can broadcast the left table."))
      else do
        let results ← runJoinTasks J (relation.joinTask .left !relation.separateMaterialization)
          none (right.parts.map fun r => (left.whole, r))
        if relation.separateMaterialization then do
          let t ← materializeJoinFromPositionLists relation.joinType left.whole results
            relation.projectionIndices
          .ok [.table t]
        else .ok results

end BroadcastJoin

end Gqe.Join
