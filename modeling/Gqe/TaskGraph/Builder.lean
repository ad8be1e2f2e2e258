import Gqe.Executor.Workers
import Gqe.Relation

/-!
# The task graph builder

`task_graph_builder` turns a physical plan into tasks (`executor/task_graph.cpp`). Its visitor
remembers the tasks of each relation, so that a relation that is used twice is generated once. A
pipeline breaker ends the current stage: the tasks handed to the parent relation that belong to this
stage become its root tasks.
-/

namespace Gqe.TaskGraph

open Executor (Tasks)

/-! ### Physical plans -/

inductive BroadcastPolicy where
  | left | right
  deriving DecidableEq

/-- The physical relations with one child. Only the data that decides which tasks are generated is
kept. -/
inductive UnaryRelation where
  | filter | project | genIdentCol | concatenateSort | window | shuffle
  | fetch (offset count : Nat)
  | concatenateAggregate (values : List AggregationKind)
  | write (tableName : String)
  deriving DecidableEq

/-- The physical relations with two children. -/
inductive BinaryRelation where
  | broadcastJoin (joinType : JoinType) (policy : BroadcastPolicy)
  | shuffleJoin (joinType : JoinType)
  | unionAll
  deriving DecidableEq

/-- A physical plan. The `id` of a relation is its address: a subplan that is shared occurs several
times with the same address. `readIn` is a read whose partial filter is an in-predicate over a
subquery. -/
inductive PhysicalRelation where
  | read (id : Nat) (tableName : String)
  | readIn (id : Nat) (tableName : String) (subquery : PhysicalRelation)
  | unary (id : Nat) (op : UnaryRelation) (child : PhysicalRelation)
  | binary (id : Nat) (op : BinaryRelation) (left right : PhysicalRelation)
  deriving DecidableEq

/-- The address of a relation. -/
def PhysicalRelation.id : PhysicalRelation → Nat
  | read id _ | readIn id _ _ | unary id _ _ | binary id _ _ _ => id

/-! ### Tasks -/

/-- The classes of tasks that the builder generates. -/
inductive TaskKind where
  | read | write | filter | project | genIdentCol | sort | window | fetch | aggregate | concatenate
  | join | materializeJoinFromPositionLists | extractMarkJoinPositions | partition
  | partitionMerge (partitionIdx : Nat)
  deriving DecidableEq

/-- A task with the tasks it depends on. -/
inductive Task where
  | mk (taskId stageId : Nat) (kind : TaskKind) (dependencies subqueries : List Task)

namespace Task

def taskId : Task → Nat
  | mk taskId _ _ _ _ => taskId

def stageId : Task → Nat
  | mk _ stageId _ _ _ => stageId

def kind : Task → TaskKind
  | mk _ _ kind _ _ => kind

def dependencies : Task → List Task
  | mk _ _ _ dependencies _ => dependencies

def subqueries : Task → List Task
  | mk _ _ _ _ subqueries => subqueries

/-- The tasks that are prepared before a task. -/
def dependent (t : Task) : List Task := t.dependencies ++ t.subqueries

@[simp] lemma taskId_mk (n k κ ds qs) : (mk n k κ ds qs).taskId = n := rfl

@[simp] lemma stageId_mk (n k κ ds qs) : (mk n k κ ds qs).stageId = k := rfl

@[simp] lemma kind_mk (n k κ ds qs) : (mk n k κ ds qs).kind = κ := rfl

@[simp] lemma dependent_mk (n k κ ds qs) : (mk n k κ ds qs).dependent = ds ++ qs := rfl

mutual

def decEq : (t u : Task) → Decidable (t = u)
  | mk n k κ ds qs, mk n' k' κ' ds' qs' =>
    match decEqList ds ds', decEqList qs qs' with
    | isTrue hd, isTrue hq =>
      if h : n = n' ∧ k = k' ∧ κ = κ' then
        isTrue (by obtain ⟨rfl, rfl, rfl⟩ := h; rw [hd, hq])
      else isFalse (by rintro ⟨⟩; exact h ⟨rfl, rfl, rfl⟩)
    | isFalse hd, _ => isFalse (by rintro ⟨⟩; exact hd rfl)
    | _, isFalse hq => isFalse (by rintro ⟨⟩; exact hq rfl)

def decEqList : (ts us : List Task) → Decidable (ts = us)
  | [], [] => isTrue rfl
  | [], _ :: _ => isFalse (by simp)
  | _ :: _, [] => isFalse (by simp)
  | t :: ts, u :: us =>
    match decEq t u, decEqList ts us with
    | isTrue h, isTrue hs => isTrue (by rw [h, hs])
    | isFalse h, _ => isFalse (by rintro ⟨⟩; exact h rfl)
    | _, isFalse hs => isFalse (by rintro ⟨⟩; exact hs rfl)

end

instance : DecidableEq Task := decEq

lemma sizeOf_lt_of_mem_dependent {t d : Task} (h : d ∈ t.dependent) : sizeOf d < sizeOf t := by
  cases t with
  | mk n k κ ds qs =>
    rw [dependent_mk, List.mem_append] at h
    rcases h with h | h
    all_goals
      have := List.sizeOf_lt_of_mem h
      simp only [mk.sizeOf_spec]
      omega

end Task

/-- The tasks as the workers see them: all but the write tasks emit a result. -/
def tasks : Tasks Task where
  stageId := Task.stageId
  dependencies := Task.dependencies
  subqueries := Task.subqueries
  emitsResult t := t.kind != .write
  acyclic := Subrelation.wf (fun h => Task.sizeOf_lt_of_mem_dependent h) (measure sizeOf).wf

@[simp] lemma tasks_stageId (t : Task) : tasks.stageId t = t.stageId := rfl

@[simp] lemma tasks_dependent (t : Task) : tasks.dependent t = t.dependent := rfl

/-! ### The builder -/

/-- A table as a read sees it: the number of task ids it takes, and the number of read tasks that
`get_read_tasks` generates. -/
structure ReadableView where
  npartitions : Nat
  numTasks : Nat
  pos : 0 < numTasks
  le : numTasks ≤ npartitions

/-- A table as a write sees it. `get_write_tasks` generates tasks for the first of its inputs. -/
structure WriteableView where
  maxConcurrentWriters : Nat
  numTasks : Nat → Except String Nat

/-- What the builder reads from its context. -/
structure Context where
  readableView : String → Option ReadableView
  writeableView : String → Option WriteableView
  numShufflePartitions : Nat
  joinUseMarkJoin : Bool
  numRanks : Nat
  ordinal : AggregationKind → Nat
  numShufflePartitions_pos : 0 < numShufflePartitions

/-- `task_graph_builder`. -/
structure Builder where
  stageRootTasks : List (List Task)
  currentStageId : Nat
  currentTaskId : Nat
  tasksCache : Nat → Option (List Task)

def Builder.initial : Builder := ⟨[], 0, 0, fun _ => none⟩

namespace Builder

@[simp] def insertPipelineBreaker (rootTasks : List Task) (b : Builder) : Builder :=
  { b with
    stageRootTasks := b.stageRootTasks ++ [rootTasks.filter (·.stageId = b.currentStageId)]
    currentStageId := b.currentStageId + 1 }

def updateCache (id : Nat) (tasks : List Task) (b : Builder) : Builder :=
  { b with tasksCache := Function.update b.tasksCache id (some tasks) }

def skip (n : Nat) (b : Builder) : Builder := { b with currentTaskId := b.currentTaskId + n }

/-- Generate a task in the current stage. -/
def newTask (kind : TaskKind) (dependencies : List Task) (b : Builder) : Task × Builder :=
  (.mk b.currentTaskId b.currentStageId kind dependencies [], b.skip 1)

/-- Generate a task in the current stage for each list of dependencies. -/
def newTasks (kind : TaskKind) (subqueries : List Task) :
    (dependencies : List (List Task)) → Builder → List Task × Builder
  | [], b => ([], b)
  | dependencies :: rest, b =>
    let (tasks, b') := newTasks kind subqueries rest (b.skip 1)
    (.mk b.currentTaskId b.currentStageId kind dependencies subqueries :: tasks, b')

def concatenate (inputTasks : List Task) (isPipelineBreaker : Bool) (b : Builder) :
    Task × Builder :=
  match inputTasks with
  | [task] => (task, b)
  | _ =>
    let b := if isPipelineBreaker then b.insertPipelineBreaker inputTasks else b
    b.newTask .concatenate inputTasks

end Builder

open Builder

/-! ### Visitors -/

/-- What is generated from the state of the builder. -/
abbrev Generator := Builder → Except String (List Task × Builder)

/-- `is_cached` before and `update_cache` after a visit. -/
def cached (id : Nat) (visit : Generator) : Generator := fun b =>
  match b.tasksCache id with
  | some tasks => .ok (tasks, b)
  | none => do
    let (tasks, b) ← visit b
    return (tasks, b.updateCache id tasks)

variable (ctx : Context)

/-- The read tasks of a table, the same subqueries for each of them. -/
def readTasks (tableName : String) (subqueries : List Task) : Generator := fun b =>
  match ctx.readableView tableName with
  | none => .error s!"read_relation for table \"{tableName}\" has no readable storage"
  | some view =>
    .ok ((b.newTasks .read subqueries (List.replicate view.numTasks [])).1, b.skip view.npartitions)

/-- `visit(read_relation)` with a subquery. -/
def visitReadIn (tableName : String) (subquery : Generator) : Generator := fun b => do
  let (subqueryTasks, b) ← subquery b
  let (concatenatedSubqueryTask, b) := b.concatenate subqueryTasks true
  readTasks ctx tableName [concatenatedSubqueryTask] b

/-- A task of the given kind for each input task: `visit(filter_relation)`,
`visit(project_relation)` and `visit(gen_ident_col_relation)`. -/
def visitEach (kind : TaskKind) (inputTasks : List Task) (b : Builder) : List Task × Builder :=
  b.newTasks kind [] (inputTasks.map fun task => [task])

/-- One task for all input tasks: `visit(concatenate_sort_relation)`, `visit(window_relation)` and
`visit(fetch_relation)`. -/
def visitConcatenated (kind : TaskKind) (inputTasks : List Task) (b : Builder) :
    List Task × Builder :=
  let (concatenatedInput, b) := b.concatenate inputTasks true
  b.newTasks kind [] [[concatenatedInput]]

/-- The largest `cudf::size_type`. -/
def maxSizeType : Nat := 2 ^ 31 - 1

/-- `visit(fetch_relation)`. -/
def visitFetch (offset count : Nat) (inputTasks : List Task) : Generator := fun b =>
  if maxSizeType < offset ∨ maxSizeType < count then
    .error "Offset or limit overflows when building a task graph for a fetch relation"
  else .ok (visitConcatenated .fetch inputTasks b)

/-- The kinds of aggregation for which `visit(concatenate_aggregate_relation)` has a case. -/
def isSupportedAggregation : AggregationKind → Bool
  | .sum | .mean | .countValid | .countAll | .min | .max => true
  | _ => false

/-- `visit(concatenate_aggregate_relation)`: apply, concatenate, apply and post-process. -/
def visitConcatenateAggregate (values : List AggregationKind) (inputTasks : List Task) :
    Generator := fun b =>
  match values.find? (!isSupportedAggregation ·) with
  | some kind => .error s!"Unknown aggregation type in task_graph_builder: {ctx.ordinal kind}"
  | none =>
    let (firstAggregationTasks, b) := visitEach .aggregate inputTasks b
    let (secondAggregationTasks, b) := visitConcatenated .aggregate firstAggregationTasks b
    .ok (visitEach .project secondAggregationTasks b)

def generatePartitionTasks (childTasks : List Task) (b : Builder) : List Task × Builder :=
  let (partitionTasks, b) := visitEach .partition childTasks b
  (partitionTasks, b.insertPipelineBreaker partitionTasks)

/-- `visit(write_relation)`. -/
def visitWrite (view : WriteableView) (childTasks : List Task) : Generator := fun b => do
  let (inputTasks, b) := if view.maxConcurrentWriters = 1 then
      let (concatenatedTask, b) := b.concatenate childTasks true
      ([concatenatedTask], b)
    else (childTasks, b)
  let numTasks ← view.numTasks inputTasks.length
  return ((visitEach .write (inputTasks.take numTasks) b).1, b.skip inputTasks.length)

/-- What the visit of a relation with one child does with the tasks of the child. The storage of a
write relation is looked up before the child is generated. -/
def visitUnary : UnaryRelation → Except String (List Task → Generator)
  | .filter => .ok fun inputTasks b => .ok (visitEach .filter inputTasks b)
  | .project => .ok fun inputTasks b => .ok (visitEach .project inputTasks b)
  | .genIdentCol => .ok fun inputTasks b => .ok (visitEach .genIdentCol inputTasks b)
  | .concatenateSort => .ok fun inputTasks b => .ok (visitConcatenated .sort inputTasks b)
  | .window => .ok fun inputTasks b => .ok (visitConcatenated .window inputTasks b)
  | .shuffle => .ok fun childTasks b => .ok (generatePartitionTasks childTasks b)
  | .fetch offset count => .ok (visitFetch offset count)
  | .concatenateAggregate values => .ok (visitConcatenateAggregate ctx values)
  | .write tableName =>
    match ctx.writeableView tableName with
    | none => .error s!"write_relation for table \"{tableName}\" has no writeable storage"
    | some view => .ok (visitWrite view)

/-- `visit(broadcast_join_relation)` with the right table broadcasted. -/
def visitBroadcastRight (left right : Generator) : Generator := fun b => do
  let (rightTasks, b) ← right b
  let (leftTasks, b) ← left (b.insertPipelineBreaker rightTasks)
  let (concatenatedRightTask, b) := b.concatenate rightTasks false
  return b.newTasks .join [] (leftTasks.map fun leftTask => [leftTask, concatenatedRightTask])

/-- The tasks whose position lists are merged, in the stage after the join tasks. -/
def lateMaterializationDependencies (joinTasks : List Task) (b : Builder) : List Task × Builder :=
  if ctx.joinUseMarkJoin then
    -- A mark join keeps its hash map in the cache, and the join tasks are no dependencies.
    let numExtractTasks := min ctx.numRanks joinTasks.length
    let (extractTasks, b) :=
      b.newTasks .extractMarkJoinPositions [] (List.replicate numExtractTasks [])
    (extractTasks, b.insertPipelineBreaker extractTasks)
  else (joinTasks, b)

/-- `visit(broadcast_join_relation)` with the left table broadcasted. -/
def visitBroadcastLeft (joinType : JoinType) (left right : Generator) : Generator := fun b => do
  let (leftTasks, b) ← left b
  let (rightTasks, b) ← right (b.insertPipelineBreaker leftTasks)
  let (concatenatedLeftTask, b) := b.concatenate leftTasks false
  let (joinTasks, b) :=
    b.newTasks .join [] (rightTasks.map fun rightTask => [concatenatedLeftTask, rightTask])
  if joinType = .leftSemi ∨ joinType = .leftAnti then
    let (positionLists, b) :=
      lateMaterializationDependencies ctx joinTasks (b.insertPipelineBreaker joinTasks)
    return b.newTasks .materializeJoinFromPositionLists [] [concatenatedLeftTask :: positionLists]
  else return (joinTasks, b)

/-- `visit(broadcast_join_relation)`. -/
def visitBroadcastJoin (joinType : JoinType) (policy : BroadcastPolicy) (left right : Generator) :
    Generator := fun b =>
  if joinType = .full ∨ joinType = .single then
    .error "Broadcast join does not support full join or single join"
  else
    match policy with
    | .right => visitBroadcastRight left right b
    | .left =>
      if joinType ≠ .inner ∧ joinType ≠ .leftSemi ∧ joinType ≠ .leftAnti then
        .error ("Broadcast join does not support left broadcast for this join; only " ++
          "inner/semi/anti join can broadcast the left table.")
      else visitBroadcastLeft ctx joinType left right b

/-- The first of the tasks is a partition task. -/
def isPartitioned : List Task → Bool
  | [] => false
  | task :: _ => task.kind = .partition

/-- The input of a shuffle join for a partition. -/
def partitionInput (inputTasks : List Task) (partitionIdx : Nat) (b : Builder) :
    Except String (Task × Builder) :=
  if isPartitioned inputTasks then .ok (b.newTask (.partitionMerge partitionIdx) inputTasks)
  else
    match inputTasks[partitionIdx]? with
    | some task => .ok (task, b)
    | none => .error "vector index out of range"

/-- The loop over the partitions of a shuffle join. -/
def shuffleJoinTasks (leftTasks rightTasks : List Task) : (partitions : List Nat) → Generator
  | [], b => .ok ([], b)
  | partitionIdx :: rest, b => do
    let (leftInputTask, b) ← partitionInput leftTasks partitionIdx b
    let (rightInputTask, b) ← partitionInput rightTasks partitionIdx b
    let (joinTask, b) := b.newTask .join [leftInputTask, rightInputTask]
    let (joinTasks, b) ← shuffleJoinTasks leftTasks rightTasks rest b
    return (joinTask :: joinTasks, b)

/-- The assertion on the inputs of a shuffle join. -/
def isValidInput (inputTasks : List Task) : Bool :=
  isPartitioned inputTasks || inputTasks.length == ctx.numShufflePartitions

/-- `visit(shuffle_join_relation)`. -/
def visitShuffleJoin (joinType : JoinType) (left right : Generator) : Generator := fun b => do
  if joinType = .full ∨ joinType = .single then
    throw "shuffle join does not support full join or single join"
  let (leftTasks, b) ← left b
  let (rightTasks, b) ← right b
  if !isValidInput ctx leftTasks || !isValidInput ctx rightTasks then
    throw "Assertion failed: make sure the physical plan is valid"
  shuffleJoinTasks leftTasks rightTasks (List.range ctx.numShufflePartitions) b

/-- `visit(union_all_relation)`. -/
def visitUnionAll (left right : Generator) : Generator := fun b => do
  let (leftTasks, b) ← left b
  let (rightTasks, b) ← right (b.insertPipelineBreaker leftTasks)
  return (leftTasks ++ rightTasks, b)

/-- The visit of a relation with two children, in whose order they are generated. -/
def visitBinary (op : BinaryRelation) (left right : Generator) : Generator :=
  match op with
  | .broadcastJoin joinType policy => visitBroadcastJoin ctx joinType policy left right
  | .shuffleJoin joinType => visitShuffleJoin ctx joinType left right
  | .unionAll => visitUnionAll left right

def generateTasks : PhysicalRelation → Generator
  | .read id tableName => cached id (readTasks ctx tableName [])
  | .readIn id tableName subquery => cached id (visitReadIn ctx tableName (generateTasks subquery))
  | .unary id op child => cached id fun b => do
    let visit ← visitUnary ctx op
    let (inputTasks, b) ← generateTasks child b
    visit inputTasks b
  | .binary id op left right =>
    cached id (visitBinary ctx op (generateTasks left) (generateTasks right))

/-- `build`, up to the root tasks of the stages. -/
def build (rootRelation : PhysicalRelation) : Except String (List (List Task)) := do
  let (generatedTasks, b) ← generateTasks ctx rootRelation .initial
  return (b.insertPipelineBreaker generatedTasks).stageRootTasks

end Gqe.TaskGraph
