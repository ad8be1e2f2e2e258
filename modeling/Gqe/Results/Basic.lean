import Gqe.Table
import Mathlib.Data.List.ReduceOption

/-!
# Query results

The way of the result rows from the tasks to the client: each task manager turns the results of
its root tasks into one record batch and sends it as Arrow IPC bytes
(`task_manager/plan_executor.cpp`, `utility/cudf_to_arrow.cpp`), the node manager merges the record
batches of all ranks (`node_manager/node_manager.cpp`).
-/

namespace Gqe.Results

variable {V S : Type}

/-! ### Arrow -/

/-- `arrow::Schema`: name and type of each column. -/
abbrev Schema := List (String × DataType)

/-- `arrow::RecordBatch`, by rows. -/
@[ext] structure RecordBatch (V : Type) where
  schema : Schema
  rows : List (Row V)
  deriving DecidableEq

/-- The functions of the Arrow library on the way of the results, with what they are documented
to do. A table is a sequence of chunks. -/
structure Arrow (V : Type) where
  Table : Type
  /-- Serialized data, a `std::string`. -/
  Bytes : Type
  empty : Bytes
  isEmpty : Bytes → Bool
  schema : Table → Schema
  chunks : Table → List (List (Row V))
  fromRecordBatches : List (RecordBatch V) → Except String Table
  combineChunks : Table → Table
  /-- The first call of `TableBatchReader::ReadNext`, `none` at the end of the stream. -/
  readNext : Table → Option (RecordBatch V)
  /-- An IPC stream with one record batch. -/
  writeStream : RecordBatch V → Bytes
  /-- The first record batch of an IPC stream. -/
  readStream : Bytes → Option (RecordBatch V)
  fromRecordBatches_eq : ∀ b bs, (∀ c ∈ bs, c.schema = b.schema) →
    ∃ t, fromRecordBatches (b :: bs) = .ok t ∧ schema t = b.schema ∧
      chunks t = (b :: bs).map (·.rows)
  schema_combineChunks : ∀ t, schema (combineChunks t) = schema t
  flatten_combineChunks : ∀ t, (chunks (combineChunks t)).flatten = (chunks t).flatten
  length_combineChunks : ∀ t, (chunks (combineChunks t)).length ≤ 1
  readNext_eq : ∀ t, readNext t = if (chunks t).flatten = [] then none
    else (chunks t).head?.map fun chunk => ⟨schema t, chunk⟩
  readStream_writeStream : ∀ b, readStream (writeStream b) = some b
  isEmpty_empty : isEmpty empty = true
  isEmpty_writeStream : ∀ b, isEmpty (writeStream b) = false

/-- Arrow with lists of chunks, for concrete evaluations. -/
def Arrow.reference (V : Type) : Arrow V where
  Table := Schema × List (List (Row V))
  Bytes := Option (RecordBatch V)
  empty := none
  isEmpty := Option.isNone
  schema := Prod.fst
  chunks := Prod.snd
  fromRecordBatches
    | [] => .error "Must pass at least one record batch or an explicit Schema"
    | b :: bs =>
      if ∀ c ∈ bs, c.schema = b.schema then .ok (b.schema, (b :: bs).map (·.rows))
      else .error "Schema was different"
  combineChunks t := (t.1, [t.2.flatten])
  readNext t := if t.2.flatten = [] then none else t.2.head?.map fun chunk => ⟨t.1, chunk⟩
  writeStream := some
  readStream := id
  fromRecordBatches_eq := fun b bs h => ⟨_, if_pos h, rfl, rfl⟩
  schema_combineChunks := fun _ => rfl
  flatten_combineChunks := by simp
  length_combineChunks := by simp
  readNext_eq := fun _ => rfl
  readStream_writeStream := fun _ => rfl
  isEmpty_empty := rfl
  isEmpty_writeStream := fun _ => rfl

/-! ### Task managers -/

/-- The column metadata of `cudf_table_to_arrow`: columns without given names are numbered. -/
def columnMetadata (columnNames : List String) (numColumns : Nat) : List String :=
  if columnNames = [] then (List.range numColumns).map toString else columnNames

def cudfTableToArrow (A : Arrow V) (views : List (Gqe.Table V)) (columnNames : List String) :
    Except String (RecordBatch V) :=
  match views with
  | [] => .error "No table views provided for Arrow conversion"
  | view :: _ =>
    let metadata := columnMetadata columnNames view.numColumns
    let batches := views.map fun v => { schema := metadata.zip v.types, rows := v.rows }
    match A.fromRecordBatches batches with
    | .error status => .error s!"Failed to create Arrow Table: {status}"
    | .ok table => .ok ((A.readNext table).getD { schema := A.schema table, rows := [] })

def serializeToArrowIpc (A : Arrow V) (resultViews : List (Gqe.Table V)) :
    Except String A.Bytes := do
  let numCols := (resultViews.head?.map (·.numColumns)).getD 0
  let columnNames := (List.range numCols).map fun i => s!"column_{i}"
  let batch ← cudfTableToArrow A resultViews columnNames
  return A.writeStream batch

structure ExecutionResult (B S : Type) where
  arrowIpc : B
  writeStats : Option S := none

/-- What is left of a plan after its task graph was executed on one rank: the results of the root
tasks, `none` for tasks that have no result on this rank. -/
structure Executed (V S : Type) where
  isWrite : Bool
  rootTasks : List (Option (Gqe.Table V))
  writeStatistics : Option S

/-- The last part of `plan_executor::operator()`: a query that writes a table returns no rows. -/
def planExecutor (A : Arrow V) (run : Executed V S) :
    Except String (ExecutionResult A.Bytes S) := do
  if run.isWrite then
    return { arrowIpc := A.empty, writeStats := run.writeStatistics }
  else
    let resultViews := run.rootTasks.reduceOption
    if resultViews = [] then
      return { arrowIpc := A.empty }
    else
      let arrowIpc ← serializeToArrowIpc A resultViews
      return { arrowIpc := arrowIpc }

structure ExecutePlanResponse (B S : Type) where
  success : Bool
  errorMessage : String := ""
  arrowIpcResult : B
  writeStatistics : Option S := none

/-- `service::ExecutePlan`: an exception becomes a response without success. The plan may already
have failed before its results were collected. -/
def executePlan (A : Arrow V) (run : Except String (Executed V S)) :
    ExecutePlanResponse A.Bytes S :=
  match run.bind (planExecutor A) with
  | .ok result => { success := true, arrowIpcResult := result.arrowIpc,
                    writeStatistics := result.writeStats }
  | .error what => { success := false, errorMessage := what, arrowIpcResult := A.empty }

/-! ### Node manager -/

/-- What the node manager has collected from the first ranks. -/
structure Collected (V S : Type) where
  partialResults : List (RecordBatch V) := []
  writeStats : Option S := none
  firstError : String := ""

variable [EmptyCollection S] [Append S]

/-- The body of the loop over the ranks. -/
def collect (A : Arrow V) (acc : Collected V S) (i : Nat)
    (response : ExecutePlanResponse A.Bytes S) : Collected V S :=
  if !response.success then
    if acc.firstError = "" then
      { acc with firstError := s!"Task manager rank {i} failed: {response.errorMessage}" }
    else acc
  else
    let writeStats := match response.writeStatistics with
      | some stats => some (acc.writeStats.getD ∅ ++ stats)
      | none => acc.writeStats
    let partialResults := if A.isEmpty response.arrowIpcResult then acc.partialResults
      else acc.partialResults ++ (A.readStream response.arrowIpcResult).toList
    { acc with writeStats, partialResults }

/-- `node_manager::execute_on_task_managers` after the responses have arrived: the record batch,
`none` for the null pointer, and the write statistics. -/
def executeOnTaskManagers (A : Arrow V) (responses : List (ExecutePlanResponse A.Bytes S)) :
    Except String (Option (RecordBatch V) × Option S) :=
  let collected := (responses.zipIdx).foldl (fun acc (response, i) => collect A acc i response) {}
  if collected.firstError ≠ "" then .error collected.firstError
  else if collected.partialResults = [] then .ok (none, collected.writeStats)
  else do
    let table ← A.fromRecordBatches collected.partialResults
    return (A.readNext (A.combineChunks table), collected.writeStats)

def executeQuery (A : Arrow V) (ranks : List (Except String (Executed V S))) :
    Except String (Option (RecordBatch V) × Option S) :=
  executeOnTaskManagers A (ranks.map (executePlan A))

/-- `execute_substrait_select` and `execute_physical_plan_select`: the record batch of the Flight
endpoint. -/
def executeSelect (A : Arrow V) (ranks : List (Except String (Executed V S))) :
    Except String (RecordBatch V) := do
  let (resultBatch, _) ← executeQuery A ranks
  return resultBatch.getD { schema := [], rows := [] }

end Gqe.Results
