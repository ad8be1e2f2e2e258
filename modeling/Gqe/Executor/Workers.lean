import Gqe.Lib.Interleaving
import Mathlib.Algebra.BigOperators.Group.Finset.Basic

/-!
# Workers

The workers of a stage (`executor/task.cpp`, `executor/task_graph.cpp`). Each worker executes its
root tasks one after another. A task first prepares the tasks it depends on: it claims a task that
is not started with a compare-and-swap and executes it, or migrates its result from another process,
and it waits for a task that another worker has claimed.
-/

namespace Gqe.Executor

/-! ### Tasks -/

/-- `task::status_type`. -/
inductive Status where
  | notStarted | inProgress | finished | failed
  deriving DecidableEq

/-- The tasks of a graph. The `execute()` of a write task emits no result. -/
structure Tasks (T : Type*) where
  stageId : T → Nat
  dependencies : T → List T
  subqueries : T → List T
  emitsResult : T → Bool
  acyclic : WellFounded fun d t => d ∈ dependencies t ++ subqueries t

variable {ι T : Type*}

/-- The tasks that `prepare_dependencies` prepares, in this order. -/
def Tasks.dependent (G : Tasks T) (t : T) : List T := G.dependencies t ++ G.subqueries t

/-- The exceptions that reach a worker. -/
inductive Exception where
  | previousStageNotExecuted | laterStage | dependentFailed | migration | execute
  deriving DecidableEq

/-- The text of an exception of `prepare_dependent_tasks`; the others bring their own. -/
def Exception.what : Exception → Option String
  | .previousStageNotExecuted => some "Dependent task from previous stage is not executed."
  | .laterStage => some "Dependent task belongs to a later stage than the current task"
  | .dependentFailed => some "Dependent task failed execution"
  | .migration | .execute => none

/-- The exceptions that are thrown after a task was claimed and do not set its status. -/
@[simp] def Exception.leavesClaim : Exception → Bool
  | .previousStageNotExecuted | .laterStage | .migration => true
  | .dependentFailed | .execute => false

/-! ### Steps of a worker -/

/-- An active call of `execute()`, with the dependent tasks that are not yet prepared. -/
structure Frame (T : Type*) where
  task : T
  remaining : List T

/-- What a worker does at the moment. -/
inductive Control (T : Type*) where
  | running
  | migrating (d : T)
  | throwing (e : Exception)

/-- A worker: the root tasks it has not yet started, and its active calls, innermost first. -/
structure Worker (T : Type*) where
  roots : List T
  frames : List (Frame T)
  control : Control T

/-- A worker has executed all its root tasks. -/
def Worker.Finished (w : Worker T) : Prop := w.roots = [] ∧ w.frames = [] ∧ w.control = .running

/-- A worker has left its loop over the root tasks. -/
def Worker.Stopped (w : Worker T) : Prop :=
  w.Finished ∨ w.frames = [] ∧ ∃ e, w.control = .throwing e

/-- A step of a worker, with the status it stores and the task whose `execute()` it enters. -/
inductive WorkerStep (G : Tasks T) (multiProcess : Bool) (status : T → Status) :
    Worker T → Worker T → (stores : Option (T × Status)) → (enters : Option T) → Prop
  /-- The loop over the root tasks: a root task is executed without claiming it. -/
  | start {r roots} : WorkerStep G multiProcess status ⟨r :: roots, [], .running⟩
      ⟨roots, [⟨r, G.dependent r⟩], .running⟩ none (some r)
  | claim {roots t d remaining frames} : status d = .notStarted → G.stageId d = G.stageId t →
    WorkerStep G multiProcess status ⟨roots, ⟨t, d :: remaining⟩ :: frames, .running⟩
      ⟨roots, ⟨d, G.dependent d⟩ :: ⟨t, remaining⟩ :: frames, .running⟩ (some (d, .inProgress))
      (some d)
  | claimPrevious {roots t d remaining frames} :
    status d = .notStarted → G.stageId d < G.stageId t → multiProcess = true →
    WorkerStep G multiProcess status ⟨roots, ⟨t, d :: remaining⟩ :: frames, .running⟩
      ⟨roots, ⟨t, remaining⟩ :: frames, .migrating d⟩ (some (d, .inProgress)) none
  | previousNotExecuted {roots t d remaining frames} :
    status d = .notStarted → G.stageId d < G.stageId t → multiProcess = false →
    WorkerStep G multiProcess status ⟨roots, ⟨t, d :: remaining⟩ :: frames, .running⟩
      ⟨roots, ⟨t, remaining⟩ :: frames, .throwing .previousStageNotExecuted⟩
      (some (d, .inProgress)) none
  | later {roots t d remaining frames} : status d = .notStarted → G.stageId t < G.stageId d →
    WorkerStep G multiProcess status ⟨roots, ⟨t, d :: remaining⟩ :: frames, .running⟩
      ⟨roots, ⟨t, remaining⟩ :: frames, .throwing .laterStage⟩ (some (d, .inProgress)) none
  /-- The busy-wait for a task that is claimed by another worker. -/
  | wait {roots t d remaining frames} : status d = .inProgress →
    WorkerStep G multiProcess status ⟨roots, ⟨t, d :: remaining⟩ :: frames, .running⟩
      ⟨roots, ⟨t, d :: remaining⟩ :: frames, .running⟩ none none
  | ready {roots t d remaining frames} : status d = .finished →
    WorkerStep G multiProcess status ⟨roots, ⟨t, d :: remaining⟩ :: frames, .running⟩
      ⟨roots, ⟨t, remaining⟩ :: frames, .running⟩ none none
  | dependentFailed {roots t d remaining frames} : status d = .failed →
    WorkerStep G multiProcess status ⟨roots, ⟨t, d :: remaining⟩ :: frames, .running⟩
      ⟨roots, ⟨t, remaining⟩ :: frames, .throwing .dependentFailed⟩ none none
  | migrated {roots frames d} :
    WorkerStep G multiProcess status ⟨roots, frames, .migrating d⟩ ⟨roots, frames, .running⟩
      (some (d, .finished)) none
  | migrationThrows {roots frames d} :
    WorkerStep G multiProcess status ⟨roots, frames, .migrating d⟩
      ⟨roots, frames, .throwing .migration⟩ none none
  | executed {roots t frames} :
    WorkerStep G multiProcess status ⟨roots, ⟨t, []⟩ :: frames, .running⟩
      ⟨roots, frames, .running⟩ (if G.emitsResult t then some (t, .finished) else none) none
  | executeThrows {roots t frames} :
    WorkerStep G multiProcess status ⟨roots, ⟨t, []⟩ :: frames, .running⟩
      ⟨roots, ⟨t, []⟩ :: frames, .throwing .execute⟩ none none
  /-- The handler of the caller sets the status of a claimed task. -/
  | unwind {roots f g frames e} :
    WorkerStep G multiProcess status ⟨roots, f :: g :: frames, .throwing e⟩
      ⟨roots, g :: frames, .throwing e⟩ (some (f.task, .failed)) none
  | unwindRoot {roots f e} :
    WorkerStep G multiProcess status ⟨roots, [f], .throwing e⟩ ⟨roots, [], .throwing e⟩ none none
  | stopped {w} : w.Stopped → WorkerStep G multiProcess status w w none none

/-! ### Steps of a stage -/

/-- The workers of a stage, the status of each task, and the tasks whose `execute()` was entered. -/
structure State (ι T : Type*) where
  status : T → Status
  workers : ι → Worker T
  entered : List T

variable [DecidableEq ι] [DecidableEq T]

@[simp] def store (status : T → Status) : Option (T × Status) → T → Status
  | none => status
  | some (t, x) => Function.update status t x

/-- Worker `i` takes a step. -/
def Step (G : Tasks T) (multiProcess : Bool) (i : ι) (s s' : State ι T) : Prop :=
  ∃ w stores enters, WorkerStep G multiProcess s.status (s.workers i) w stores enters ∧
    s' = ⟨store s.status stores, Function.update s.workers i w, enters.toList ++ s.entered⟩

end Gqe.Executor
