import Gqe.Join.Partitioning

/-!
# Mark joins

`mark_join` (`executor/mark_join.cuh`, `executor/mark_join.cu`) builds a hash map of the rows of the
left table, marks the entries that rows of the right table match, and reads the marked or the
unmarked positions off in the end. It compares what is in the data buffers of the key columns,
whether a value is NULL or not. Left semi and left anti joins that broadcast the left table use it
if the query asks for it.
-/

namespace Gqe.Join

variable {V : Type}

/-- What is left to the libraries of a mark join. -/
structure MarkJoins (V : Type) [LinearOrder V] extends CudfJoins V where
  /-- The value is a floating-point number that is not equal to itself. -/
  isNan : V → Bool
  /-- `device_row_hasher`. -/
  rowHasher : List V → Nat
  /-- The bloom filter of some hashes contains a hash. -/
  contains : List Nat → Nat → Bool
  contains_of_mem (hashes : List Nat) (hash : Nat) : hash ∈ hashes → contains hashes hash

/-- The data of a key. A NULL has data too, by its column. -/
def keyData (payload : Nat → V) (key : Row V) : List V :=
  key.mapIdx fun c cell => cell.getD (payload c)

/-- The data of the keys of a table, where a NULL has data by its row and column. -/
def KeyTable.data (payload : Nat → Nat → V) (keys : KeyTable V) : List (List V) :=
  keys.rows.mapIdx fun i key => keyData (payload i) key

/-- `equality_comparator`: `==` on the data of two values. -/
def elementsEqual [DecidableEq V] (isNan : V → Bool) (a b : V) : Bool := a = b && !isNan a

/-- `equality_comparator_adapter`: the data is equal in all columns. -/
def dataEqual [DecidableEq V] (isNan : V → Bool) (build probe : List V) : Bool :=
  (build.zip probe).all fun p => elementsEqual isNan p.1 p.2

/-! ### The mark set -/

/-- An entry of the hash map. -/
structure MarkEntry where
  hash : Nat
  row : Nat
  marked : Bool
  deriving DecidableEq

/-- `mark_join`. The null equality it is given is stored and never read. -/
structure MarkJoin (V : Type) where
  build : List (List V)
  entries : List MarkEntry

variable [LinearOrder V] (M : MarkJoins V)

/-- The constructor of `mark_join`. -/
def MarkJoin.create (build : List (List V)) : MarkJoin V where
  build := build
  entries := build.mapIdx fun i data => ⟨M.rowHasher data, i, false⟩

/-- `mark_probe` for a row of the probe side that has passed the bloom filter. -/
def MarkJoin.markProbe (isTrue : Nat → Bool) (query : List V) (map : MarkJoin V) : MarkJoin V :=
  { map with
    entries := map.entries.map fun entry =>
      if !entry.marked && entry.hash = M.rowHasher query &&
          dataEqual M.isNan (map.build.getD entry.row []) query && isTrue entry.row then
        { entry with marked := true }
      else entry }

/-- `perform_mark_join` with a cached hash map: the positions are read off later. The predicate is
evaluated on a row of the left and a row of the right table. -/
def MarkJoin.performMarkJoin (isTrue : Nat → Nat → Bool) (probe : List (List V))
    (map : MarkJoin V) : MarkJoin V :=
  probe.zipIdx.foldl (fun map query =>
    if M.contains (map.entries.map (·.hash)) (M.rowHasher query.1) then
      map.markProbe M (isTrue · query.2) query.1
    else map) map

def MarkJoin.markScan (joinType : JoinType) (map : MarkJoin V) : List Nat :=
  (map.entries.filter fun entry => keeps joinType entry.marked).map (·.row)

/-! ### Tasks -/

/-- The cached paths of `join_task::execute` with a mark join. -/
def markJoinTask (condition : Expr V) (leftPayload rightPayload : Nat → Nat → V)
    (cache : Option (MarkJoin V)) (left right : Table V) : Except Failure (MarkJoin V) := do
  let keys ← addJoinCondition M.expressions left right condition
  -- The null equality goes into the hash map, so there has to be one.
  let _ ← keys.condition.getCompareNulls
  let map := cache.getD (.create M (keys.leftKeys.data leftPayload))
  match keys.condition.nonEqualityConditions with
  | [] => .ok (map.performMarkJoin M (fun _ _ => true) (keys.rightKeys.data rightPayload))
  | predicate :: predicates =>
    let predicate ← parsePredicates left.numColumns predicate predicates
    .ok (map.performMarkJoin M
      (fun i j => M.isTrue predicate (left.rows.getD i []) (right.rows.getD j []))
      (keys.rightKeys.data rightPayload))

/-- `extract_mark_join_positions_task::execute`. -/
def extractMarkJoinPositions (joinType : JoinType) :
    Option (MarkJoin V) → Except Failure (TaskResult V)
  | some map => .ok (.positions (.left (map.markScan joinType)))
  | none => .error (.throws
      "Expected mark_join_impl in cache for extract_mark_join_positions_task")

/-- What is in the data buffers of the keys where they are NULL: those of the left table as each
rank evaluates them, and those of each part of the right input. -/
structure Payloads (V : Type) where
  left : (rank row column : Nat) → V
  right : (part row column : Nat) → V

/-- The join tasks, from part `k` on. Part `k` is joined by rank `k % numRanks`, and each rank has a
cache of its own. -/
def runMarkJoinTasks (condition : Expr V) (numRanks : Nat) (payloads : Payloads V)
    (left : Table V) :
    Nat → (Nat → Option (MarkJoin V)) → List (Table V) → Except Failure (Nat → Option (MarkJoin V))
  | _, caches, [] => .ok caches
  | k, caches, right :: rest => do
    let rank := k % numRanks
    let map ← markJoinTask M condition (payloads.left rank) (payloads.right k) (caches rank) left
      right
    runMarkJoinTasks condition numRanks payloads left (k + 1)
      (Function.update caches rank (some map)) rest

namespace BroadcastJoin

variable (relation : BroadcastJoin V)

/-- The tasks of a semi or an anti join that broadcasts the left table, with a mark join. -/
def runMarkJoin (numRanks : Nat) (payloads : Payloads V) (left right : Partitions V) :
    Except Failure (List (TaskResult V)) := do
  let caches ← runMarkJoinTasks M relation.condition numRanks payloads left.whole 0
    (fun _ => none) right.parts
  let positionLists ← (List.range (min numRanks right.parts.length)).mapM fun rank =>
    extractMarkJoinPositions relation.joinType (caches rank)
  let t ← materializeJoinFromPositionLists relation.joinType left.whole positionLists
    relation.projectionIndices
  .ok [.table t]

/-- The results of the tasks of a broadcast join, given the parameter `join_use_mark_join`. -/
def execute (joinUseMarkJoin : Bool) (numRanks : Nat) (payloads : Payloads V)
    (left right : Partitions V) : Except Failure (List (TaskResult V)) :=
  if joinUseMarkJoin ∧ relation.policy = .left ∧ relation.separateMaterialization then
    relation.runMarkJoin M numRanks payloads left right
  else relation.run M.toCudfJoins left right

end BroadcastJoin

end Gqe.Join
