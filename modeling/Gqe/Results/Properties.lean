import Gqe.Results.Basic
import Mathlib.Algebra.Order.BigOperators.Group.List
import Mathlib.Algebra.Order.Group.Nat

/-!
# The rows that reach the client

Every rank sends the rows of its first result only, so that the rows the client gets are all rows
of the query exactly if the other results are empty.
-/

namespace Gqe.Results

open List Arrow

variable {V S : Type}

/-! ### One rank -/

/-- The schema of the batches a task manager sends. -/
def resultSchema (types : List DataType) : Schema :=
  ((range types.length).map fun i => s!"column_{i}").zip types

section

variable (A : Arrow V) (view : Gqe.Table V) (views : List (Gqe.Table V))
  (htys : ∀ v ∈ views, v.types = view.types)
include A view views htys

/-- Of several views, only the first one is converted. -/
lemma cudfTableToArrow_cons (columnNames : List String) :
    cudfTableToArrow A (view :: views) columnNames =
      .ok { schema := (columnMetadata columnNames view.numColumns).zip view.types,
            rows := view.rows } := by
  obtain ⟨t, ht, hsch, hchunks⟩ := A.fromRecordBatches_eq
    { schema := (columnMetadata columnNames view.numColumns).zip view.types, rows := view.rows }
    (views.map fun v =>
      { schema := (columnMetadata columnNames view.numColumns).zip v.types, rows := v.rows }) (by
      simp only [forall_mem_map]
      intro v hv
      rw [htys v hv])
  simp only [cudfTableToArrow, map_cons, ht, A.readNext_eq, hchunks, hsch]
  split
  · -- without any row an empty batch is made
    simp_all
  · simp

lemma toArrowIpc_cons : serializeToArrowIpc A (view :: views) =
      .ok (A.writeStream { schema := resultSchema view.types, rows := view.rows }) := by
  have hsch : (columnMetadata ((range view.numColumns).map fun i => s!"column_{i}")
      view.numColumns).zip view.types = resultSchema view.types := by
    by_cases h : view.types = []
    · simp [resultSchema, h]
    · rw [columnMetadata, if_neg (by simpa [Table.numColumns] using h)]
      rfl
  simp only [serializeToArrowIpc, head?_cons, Option.map_some, Option.getD_some,
    cudfTableToArrow_cons A view views htys, hsch]
  rfl

end

/-- The batch a rank sends, if it has a result. -/
def sentBatch (types : List DataType) (run : Executed V S) : Option (RecordBatch V) :=
  run.rootTasks.reduceOption.head?.map fun view => ⟨resultSchema types, view.rows⟩

/-- The run is the one of a query whose results have columns of the given types. -/
structure IsQuery (types : List DataType) (run : Executed V S) : Prop where
  isWrite : run.isWrite = false
  types_eq : ∀ view ∈ run.rootTasks.reduceOption, view.types = types

lemma executePlan_eq (A : Arrow V) {types : List DataType} {run : Executed V S}
    (h : IsQuery types run) : executePlan A (.ok run) =
      { success := true
        arrowIpcResult := ((sentBatch types run).map A.writeStream).getD A.empty } := by
  have hplan : planExecutor A run =
      .ok { arrowIpc := ((sentBatch types run).map A.writeStream).getD A.empty } := by
    unfold planExecutor sentBatch
    have htys := h.types_eq
    cases hviews : run.rootTasks.reduceOption with
    | nil => simp [h.isWrite, pure, Except.pure]
    | cons view views =>
      rw [hviews] at htys
      have hview : view.types = types := htys view (by simp)
      have hipc := toArrowIpc_cons A view views
        fun v hv => (htys v (by simp [hv])).trans hview.symm
      simp [h.isWrite, hipc, hview, bind, Except.bind, pure, Except.pure]
  simp [executePlan, Except.bind, hplan]

/-! ### All ranks -/

variable [EmptyCollection S] [Append S]

/-- The responses of the ranks of a query are collected without an error. -/
lemma foldl_collect (A : Arrow V) (types : List DataType) (ranks : List (Executed V S))
    (h : ∀ run ∈ ranks, IsQuery types run) (k : Nat) (acc : Collected V S) :
    ((ranks.map fun run => executePlan A (.ok run)).zipIdx k).foldl
        (fun acc (response, i) => collect A acc i response) acc =
      { acc with partialResults := acc.partialResults ++ ranks.filterMap (sentBatch types) } := by
  induction ranks generalizing k acc with
  | nil => simp
  | cons run ranks ih =>
    simp only [map_cons, zipIdx_cons, foldl_cons]
    rw [ih (fun r hr => h r (by simp [hr])), executePlan_eq A (h run (by simp))]
    cases hb : sentBatch types run with
    | none => simp [collect, hb, A.isEmpty_empty]
    | some b => simp [collect, hb, A.readStream_writeStream, A.isEmpty_writeStream]

def batchRows (batch : Option (RecordBatch V)) : List (Row V) := (batch.map (·.rows)).getD []

/-- A combined table has all rows in the batch that is read first. -/
lemma batchRows_combine (A : Arrow V) (t : A.Table) :
    batchRows (A.readNext (A.combineChunks t)) = (A.chunks t).flatten := by
  have hflat := A.flatten_combineChunks t
  have hlen := A.length_combineChunks t
  rw [A.readNext_eq, ← hflat]
  split
  · next h => rw [h]; rfl
  · match hc : A.chunks (A.combineChunks t) with
    | [] => simp_all
    | [chunk] => simp [batchRows]
    | _ :: _ :: _ => simp [hc] at hlen

def firstRows (run : Executed V S) : List (Row V) :=
  (run.rootTasks.reduceOption.head?.map (·.rows)).getD []

omit [EmptyCollection S] [Append S] in
lemma flatMap_rows_sentBatch (types : List DataType) (ranks : List (Executed V S)) :
    (ranks.filterMap (sentBatch types)).flatMap (·.rows) = ranks.flatMap firstRows := by
  induction ranks with
  | nil => rfl
  | cons run ranks ih =>
    cases hview : run.rootTasks.reduceOption.head? <;>
      simp [sentBatch, firstRows, hview] <;> exact ih

/-- The client gets the rows of the first result of each rank, in the order of the ranks. There is
no batch without rows. -/
theorem executeQuery_rows (A : Arrow V) {types : List DataType} {ranks : List (Executed V S)}
    (h : ∀ run ∈ ranks, IsQuery types run) :
    ∃ batch, executeQuery A (ranks.map .ok) = .ok (batch, none) ∧
      batchRows batch = ranks.flatMap firstRows ∧ (batchRows batch = [] → batch = none) := by
  unfold executeQuery executeOnTaskManagers
  rw [map_map]
  have hfold := foldl_collect A types ranks h 0 {}
  simp only [Function.comp_def, hfold]
  rw [← flatMap_rows_sentBatch types]
  match hb : ranks.filterMap (sentBatch types) with
  | [] => exact ⟨none, by simp, by simp [batchRows], fun _ => rfl⟩
  | b :: bs =>
    have hsch : ∀ c ∈ b :: bs, c.schema = resultSchema types := by
      rw [← hb]
      simp only [mem_filterMap, sentBatch, Option.map_eq_some_iff]
      rintro _ ⟨_, _, _, _, rfl⟩
      rfl
    obtain ⟨t, ht, -, hchunks⟩ := A.fromRecordBatches_eq b bs fun c hc =>
      (hsch c (by simp [hc])).trans (hsch b (by simp)).symm
    refine ⟨A.readNext (A.combineChunks t), by simp [ht, bind, Except.bind, pure, Except.pure], ?_⟩
    rw [batchRows_combine]
    refine ⟨by rw [hchunks, flatMap_def], fun hnil => ?_⟩
    rw [A.readNext_eq, A.flatten_combineChunks, if_pos hnil]

/-- All rows of a query, in the order of the ranks and of their root tasks. -/
def resultRows (ranks : List (Executed V S)) : List (Row V) :=
  ranks.flatMap fun run => run.rootTasks.reduceOption.flatMap (·.rows)

lemma flatMap_eq_flatMap_append {α β : Type*} (f g : α → List β) (l : List α) :
    l.flatMap f = l.flatMap (fun x => f x ++ g x) ↔ ∀ x ∈ l, g x = [] := by
  constructor
  · intro h
    have hlen := congrArg length h
    simp only [length_flatMap, length_append, sum_map_add] at hlen
    have hsum : (l.map fun x => (g x).length).sum = 0 := by omega
    intro x hx
    have := sum_eq_zero_iff.1 hsum _ (mem_map_of_mem hx)
    exact length_eq_zero_iff.1 this
  · intro h
    exact flatMap_congr fun x hx => by rw [h x hx, append_nil]

/-- The client gets exactly the rows of the query if and only if on each rank all results but the
first one are empty. -/
theorem executeQuery_rows_iff (A : Arrow V) (types : List DataType)
    (ranks : List (Executed V S)) (h : ∀ run ∈ ranks, IsQuery types run) :
    ∃ batch, executeQuery A (ranks.map .ok) = .ok (batch, none) ∧
      (batchRows batch = resultRows ranks ↔
        ∀ run ∈ ranks, ∀ view ∈ run.rootTasks.reduceOption.tail, view.rows = []) := by
  obtain ⟨batch, hbatch, hrows, -⟩ := executeQuery_rows A h
  refine ⟨batch, hbatch, ?_⟩
  have hall (run : Executed V S) : run.rootTasks.reduceOption.flatMap (·.rows) =
      firstRows run ++ run.rootTasks.reduceOption.tail.flatMap (·.rows) := by
    unfold firstRows
    cases run.rootTasks.reduceOption <;> simp
  rw [hrows, resultRows]
  simp [hall, flatMap_eq_flatMap_append]

/-- A query without rows keeps its schema if and only if there are no columns in it. -/
theorem executeSelect_schema_iff (A : Arrow V) (types : List DataType)
    (ranks : List (Executed V S)) (h : ∀ run ∈ ranks, IsQuery types run) :
    ∃ batch, executeSelect A (ranks.map .ok) = .ok batch ∧
      ((resultRows ranks = [] → batch.rows = [] ∧ batch.schema = resultSchema types) ↔
        (resultRows ranks = [] → types = [])) := by
  obtain ⟨batch, hbatch, hrows, hnone⟩ := executeQuery_rows A h
  refine ⟨batch.getD { schema := [], rows := [] }, by simp [executeSelect, hbatch], ?_⟩
  refine forall_congr' fun hempty => ?_
  obtain rfl : batch = none := by
    refine hnone (hrows.trans (flatMap_eq_nil_iff.2 fun run hrun => ?_))
    have hviews := flatMap_eq_nil_iff.1 (flatMap_eq_nil_iff.1 hempty run hrun)
    unfold firstRows
    cases hfirst : run.rootTasks.reduceOption with
    | nil => rfl
    | cons view views => exact hviews view (by simp [hfirst])
  cases types <;> simp [resultSchema]

def integerColumn (values : List Int) : Gqe.Table Int where
  types := [.int64]
  rows := values.map fun v => [some v]
  length_row := by simp
  rows_of_no_columns := by simp

def integerRun (results : List (Option (List Int))) : Executed Int (List Nat) where
  isWrite := false
  rootTasks := results.map (·.map integerColumn)
  writeStatistics := none

lemma isQuery_integerRun (results : List (Option (List Int))) :
    IsQuery [.int64] (integerRun results) where
  isWrite := rfl
  types_eq := by
    intro view hview
    simp only [integerRun, reduceOption_mem_iff, mem_map, Option.map_eq_some_iff] at hview
    obtain ⟨_, _, _, _, rfl⟩ := hview
    rfl

/-- One rank with two results of one row each loses the second row. -/
theorem executeQuery_loses_row : IsQuery [.int64] (integerRun [some [1], some [2]]) ∧
      (∃ batch, executeQuery (reference Int) [.ok (integerRun [some [1], some [2]])] =
        .ok (batch, none) ∧ batchRows batch = [[some 1]]) ∧
      resultRows [integerRun [some [1], some [2]]] = [[some 1], [some 2]] :=
  ⟨isQuery_integerRun _, ⟨_, rfl, rfl⟩, rfl⟩

/-- Two ranks, one with a task without result and an empty second result. -/
theorem executeQuery_keeps_rows : ∃ batch, executeQuery (reference Int)
        ([integerRun [none, some [1, 2], some []], integerRun [some [3]]].map .ok) =
        .ok (batch, none) ∧ batchRows batch = [[some 1], [some 2], [some 3]] := by
  obtain ⟨batch, hbatch, hrows⟩ := executeQuery_rows_iff (reference Int) [.int64]
    [integerRun [none, some [1, 2], some []], integerRun [some [3]]]
    (by simp [isQuery_integerRun])
  exact ⟨batch, hbatch, hrows.2 (by simp [integerRun, integerColumn])⟩

/-- A query for a column without rows, on one rank. -/
theorem executeSelect_loses_schema : resultRows [integerRun [some []]] = [] ∧
    (executeSelect (reference Int) [.ok (integerRun [some []])]).map (·.schema) = .ok [] :=
  ⟨rfl, rfl⟩

/-- A query with a row, on one rank. -/
theorem executeSelect_keeps_schema : ∃ batch,
    executeSelect (reference Int) ([integerRun [some [1]]].map .ok) = .ok batch ∧
      (resultRows [integerRun [some [1]]] = [] →
        batch.rows = [] ∧ batch.schema = resultSchema [.int64]) := by
  obtain ⟨batch, hbatch, hiff⟩ := executeSelect_schema_iff (reference Int) [.int64]
    [integerRun [some [1]]] (by simp [isQuery_integerRun])
  exact ⟨batch, hbatch, hiff.2 fun h => by cases h⟩

end Gqe.Results
