import Gqe.Executor.Workers
import Mathlib.Algebra.BigOperators.Group.Finset.Piecewise
import Mathlib.Algebra.GroupWithZero.Nat
import Mathlib.Algebra.Order.BigOperators.Group.Finset

/-!
# Termination of a stage

As long as every claimed task is finished or failed by the worker that has claimed it, the workers
of a stage stop: each call waits only for calls of tasks below its own in the graph, and each step
that does not wait brings a worker closer to its end. A claim that is left behind makes the other
workers wait for ever.
-/

namespace Gqe.Executor

open Interleaving Relation List Frame Function

variable {ι T : Type*} {G : Tasks T} {multiProcess : Bool}

/-! ### Claimed tasks -/

/-- The calls of a worker are nested as the tasks depend on each other. -/
structure Worker.Linked (G : Tasks T) (w : Worker T) : Prop where
  chain : (w.frames.map task).IsChain fun d t => d ∈ G.dependent t
  remaining : ∀ f ∈ w.frames, ∀ d ∈ f.remaining, d ∈ G.dependent f.task

/-- The worker has claimed the task and has not yet set its status. -/
@[simp] def Worker.Owns (w : Worker T) (d : T) : Prop :=
  d ∈ (w.frames.map task).dropLast ∨ w.control = .migrating d

def Worker.WaitsFor (status : T → Status) (w : Worker T) (d : T) : Prop :=
  status d = .inProgress ∧ w.control = .running ∧
    ∃ t remaining frames, w.frames = ⟨t, d :: remaining⟩ :: frames

variable {d : T} {status : T → Status} {w w' : Worker T} {stores : Option (T × Status)}
  {enters : Option T}

section

variable (h : WorkerStep G multiProcess status w w' stores enters)
include h

lemma WorkerStep.linked (hw : w.Linked G) : w'.Linked G := by
  obtain ⟨hchain, hrem⟩ := hw
  cases h with
  | start | unwindRoot => exact ⟨by simp, by simp⟩
  | claim =>
    simp only [forall_mem_cons] at hchain hrem
    refine ⟨?_, ?_⟩
    · simpa using ⟨hrem.1.1, hchain⟩
    · simp only [forall_mem_cons]
      exact ⟨fun d hd => hd, hrem.1.2, hrem.2⟩
  | claimPrevious | previousNotExecuted | later | ready | dependentFailed =>
    simp only [forall_mem_cons] at hrem
    refine ⟨hchain, ?_⟩
    simp only [forall_mem_cons]
    exact ⟨hrem.1.2, hrem.2⟩
  | wait | stopped | migrated | migrationThrows | executeThrows => exact ⟨hchain, hrem⟩
  | executed | unwind =>
    simp only [forall_mem_cons] at hchain hrem
    exact ⟨hchain.tail, by simpa using hrem.2⟩

section

variable (hsafe : ∀ e, w'.control = .throwing e → e.leavesClaim = false)
include hsafe

/-- A task that is claimed by a step is owned by the worker, unless the step throws. -/
lemma WorkerStep.owns_claimed (hd : stores = some (d, .inProgress)) : w'.Owns d := by
  cases h with
  | claim | claimPrevious =>
    simp only [Option.some.injEq, Prod.mk.injEq] at hd
    simp [hd]
  | previousNotExecuted | later => simpa using hsafe _ rfl
  | executed => split at hd <;> simp at hd
  | start | wait | ready | dependentFailed | migrated | migrationThrows | executeThrows | unwind
  | unwindRoot | stopped => simp at hd

/-- A worker gives up a task only with its status set. -/
lemma WorkerStep.owns (hemits : ∀ t, ∀ d ∈ G.dependent t, G.emitsResult d) (hw : w.Linked G)
    (hd : w.Owns d) : w'.Owns d ∨ ∃ x, stores = some (d, x) ∧ x ≠ .inProgress := by
  cases h with
  | start => simp at hd
  | claim =>
    refine .inl (.inl ?_)
    simp only [Worker.Owns, map_cons, reduceCtorEq, or_false] at hd
    simp [hd]
  | claimPrevious | ready | dependentFailed | executeThrows =>
    simp only [Worker.Owns, reduceCtorEq, or_false] at hd
    exact .inl (.inl hd)
  | previousNotExecuted | later | migrationThrows => simpa using hsafe _ rfl
  | wait | stopped => exact .inl hd
  | migrated =>
    rcases hd with hd | hd
    · exact .inl (.inl hd)
    · exact .inr ⟨.finished, by simpa using hd, by simp⟩
  | @executed _ t frames =>
    cases frames with
    | nil => simp at hd
    | cons f frames =>
      simp only [Worker.Owns, map_cons, dropLast_cons_cons, mem_cons, reduceCtorEq, or_false] at hd
      rcases hd with rfl | hd
      · have hchain := hw.chain
        simp only [map_cons, isChain_cons_cons] at hchain
        exact .inr ⟨.finished, by simp [hemits _ d hchain.1], by simp⟩
      · exact .inl (.inl (by simpa using hd))
  | unwind =>
    simp only [Worker.Owns, map_cons, dropLast_cons_cons, mem_cons, reduceCtorEq, or_false] at hd
    rcases hd with rfl | hd
    · exact .inr ⟨.failed, rfl, by simp⟩
    · exact .inl (.inl (by simpa using hd))
  | unwindRoot => simp at hd

end

end

/-! ### The invariant of a stage -/

/-- Every task in progress is owned by a worker. -/
structure Invariant (G : Tasks T) (s : State ι T) : Prop where
  linked : ∀ i, (s.workers i).Linked G
  owned : ∀ d, s.status d = .inProgress → ∃ i, (s.workers i).Owns d

section
variable [DecidableEq ι] [DecidableEq T]

/-- A step that leaves no claimed task behind: no exception is thrown between the claim of a
dependent task of another stage and the result of its migration. -/
def SafeStep (G : Tasks T) (multiProcess : Bool) (i : ι) (s s' : State ι T) : Prop :=
  Step G multiProcess i s s' ∧ ∀ e, (s'.workers i).control = .throwing e → e.leavesClaim = false

lemma Invariant.step (hemits : ∀ t, ∀ d ∈ G.dependent t, G.emitsResult d) {i : ι} {s s' : State ι T}
    (hs : Invariant G s) (h : SafeStep G multiProcess i s s') : Invariant G s' := by
  obtain ⟨⟨w, stores, enters, hstep, rfl⟩, hsafe⟩ := h
  simp only [update_self] at hsafe
  constructor
  · intro j
    rcases eq_or_ne j i with rfl | hj
    · simpa using hstep.linked (hs.linked j)
    · simpa [hj] using hs.linked j
  · intro d hd
    by_cases hclaimed : stores = some (d, .inProgress)
    · exact ⟨i, by simpa using hstep.owns_claimed hsafe hclaimed⟩
    · -- the task was in progress before
      have hbefore : s.status d = .inProgress := by
        rcases stores with _ | ⟨t, x⟩
        · exact hd
        · rcases eq_or_ne d t with rfl | hne
          · simp_all
          · simpa [hne] using hd
      obtain ⟨j, hj⟩ := hs.owned d hbefore
      rcases eq_or_ne j i with rfl | hne
      · rcases hstep.owns hsafe hemits (hs.linked j) hj with howns | ⟨x, rfl, hx⟩
        · exact ⟨j, by simpa using howns⟩
        · exact absurd (by simpa using hd) hx
      · exact ⟨j, by simpa [hne] using hj⟩

end

/-! ### Progress -/

/-- A task is below another one in the graph. -/
abbrev Tasks.Below (G : Tasks T) : T → T → Prop := TransGen fun d t => d ∈ G.dependent t

lemma Tasks.wellFounded_below (G : Tasks T) : WellFounded G.Below := G.acyclic.transGen

lemma below_of_chain {t : T} {tasks : List T}
    (h : (t :: tasks).IsChain fun d t => d ∈ G.dependent t) (hd : d ∈ t :: tasks) :
    t = d ∨ G.Below t d := by
  induction tasks generalizing t with
  | nil => exact .inl (mem_singleton.1 hd).symm
  | cons u tasks ih =>
    rw [isChain_cons_cons] at h
    rcases mem_cons.1 hd with rfl | hd
    · exact .inl rfl
    · rcases ih h.2 hd with rfl | hbelow
      · exact .inr (.single h.1)
      · exact .inr (.head h.1 hbelow)

/-- A worker that waits although it owns a task waits for a task below it. -/
lemma Worker.WaitsFor.below {d' : T} (hw : w.Linked G)
    (h : w.WaitsFor status d') (howns : w.Owns d) : G.Below d' d := by
  obtain ⟨-, hcontrol, t, remaining, frames, hframes⟩ := h
  have hd' : d' ∈ G.dependent t :=
    hw.remaining ⟨t, d' :: remaining⟩ (by simp [hframes]) d' (by simp)
  have hd : d ∈ t :: frames.map task := by
    rcases howns with howns | howns
    · rw [hframes] at howns
      exact dropLast_subset _ howns
    · simp [hcontrol] at howns
  have hchain := hw.chain
  rw [hframes] at hchain
  rcases below_of_chain hchain hd with rfl | hbelow
  · exact .single hd'
  · exact .head hd' hbelow

lemma Worker.Owns.not_stopped (h : w.Owns d) : ¬ w.Stopped := by
  rintro (⟨-, hframes, hcontrol⟩ | ⟨hframes, e, hcontrol⟩) <;>
    simp [hframes, hcontrol] at h

/-- While some worker has not stopped, some worker has not stopped and does not wait. -/
lemma Invariant.exists_ready {s : State ι T} (hs : Invariant G s)
    (h : ∃ i, ¬ (s.workers i).Stopped) :
    ∃ i, ¬ (s.workers i).Stopped ∧ ∀ d, ¬ (s.workers i).WaitsFor s.status d := by
  -- whom a worker waits for is ready or waits for a task further below
  have hwaits : ∀ d i, (s.workers i).WaitsFor s.status d →
      ∃ i, ¬ (s.workers i).Stopped ∧ ∀ d, ¬ (s.workers i).WaitsFor s.status d := by
    intro d
    induction d using G.wellFounded_below.induction with
    | h d ih =>
      intro i hi
      obtain ⟨j, hj⟩ := hs.owned d hi.1
      by_cases hready : ∃ d', (s.workers j).WaitsFor s.status d'
      · obtain ⟨d', hd'⟩ := hready
        exact ih d' (hd'.below (hs.linked j) hj) j hd'
      · exact ⟨j, hj.not_stopped, not_exists.1 hready⟩
  obtain ⟨i, hi⟩ := h
  by_cases hready : ∃ d, (s.workers i).WaitsFor s.status d
  · obtain ⟨d, hd⟩ := hready
    exact hwaits d i hd
  · exact ⟨i, hi, not_exists.1 hready⟩

/-! ### The measure -/

/-- What the execution of a task costs, apart from that of its dependent tasks. -/
def Tasks.cost (G : Tasks T) (t : T) : Nat := 2 * (G.dependent t).length + 2

def Frame.cost (f : Frame T) : Nat := 2 * f.remaining.length + 2

def Control.cost : Control T → Nat
  | .running => 1
  | .migrating _ => 2
  | .throwing _ => 0

def Worker.cost (G : Tasks T) (w : Worker T) : Nat :=
  (w.roots.map fun r => G.cost r + 1).sum + (w.frames.map Frame.cost).sum + w.control.cost

/-- The cost of the tasks that can still be claimed. -/
def unclaimedCost (G : Tasks T) (tasks : Finset T) (status : T → Status) : Nat :=
  ∑ t ∈ tasks, if status t = .notStarted then G.cost t else 0

/-- With every task, its dependent tasks are among those given. -/
def Tasks.IsClosed (G : Tasks T) (tasks : Finset T) : Prop :=
  ∀ t ∈ tasks, ∀ d ∈ G.dependent t, d ∈ tasks

/-- The tasks of a worker are among those given. -/
structure Worker.Within (tasks : Finset T) (w : Worker T) : Prop where
  roots : ∀ r ∈ w.roots, r ∈ tasks
  frames : ∀ f ∈ w.frames, f.task ∈ tasks

variable {tasks : Finset T}

lemma WorkerStep.ne_notStarted (h : WorkerStep G multiProcess status w w' stores enters) {t : T}
    {x : Status} (hx : stores = some (t, x)) : x ≠ .notStarted := by
  rintro rfl
  cases h with
  | _ => simp at hx

lemma WorkerStep.within (h : WorkerStep G multiProcess status w w' stores enters)
    (hclosed : G.IsClosed tasks) (hlink : w.Linked G)
    (hw : w.Within tasks) : w'.Within tasks := by
  obtain ⟨hroots, hframes⟩ := hw
  cases h with
  | start =>
    rw [forall_mem_cons] at hroots
    exact ⟨hroots.2, by simpa using hroots.1⟩
  | claim =>
    have hd := (forall_mem_cons.1 hlink.remaining).1 _ (mem_cons_self ..)
    rw [forall_mem_cons] at hframes
    refine ⟨hroots, ?_⟩
    simp only [forall_mem_cons]
    exact ⟨hclosed _ hframes.1 _ hd, hframes⟩
  | claimPrevious | previousNotExecuted | later | ready | dependentFailed =>
    rw [forall_mem_cons] at hframes
    exact ⟨hroots, forall_mem_cons.2 hframes⟩
  | wait | stopped | migrated | migrationThrows | executeThrows => exact ⟨hroots, hframes⟩
  | executed | unwind => exact ⟨hroots, (forall_mem_cons.1 hframes).2⟩
  | unwindRoot => exact ⟨hroots, by simp⟩

variable [DecidableEq T]

lemma unclaimedCost_claim (hd : d ∈ tasks) (hstat : status d = .notStarted) :
    unclaimedCost G tasks (store status (some (d, .inProgress))) + G.cost d =
      unclaimedCost G tasks status := by
  unfold unclaimedCost
  rw [← Finset.add_sum_erase _ _ hd, ← Finset.add_sum_erase tasks _ hd]
  have hrest : ∑ t ∈ tasks.erase d, (if store status (some (d, .inProgress)) t = .notStarted then
      G.cost t else 0) = ∑ t ∈ tasks.erase d, if status t = .notStarted then G.cost t else 0 := by
    refine Finset.sum_congr rfl fun t ht => ?_
    simp [Finset.ne_of_mem_erase ht]
  rw [hrest]
  simp [hstat]
  omega

/-- A step leaves everything as it is, and the worker has stopped or waits, or it is a step
towards the end. -/
lemma WorkerStep.cost_lt (h : WorkerStep G multiProcess status w w' stores enters)
    (hclosed : G.IsClosed tasks) (hlink : w.Linked G)
    (hw : w.Within tasks) :
    (w' = w ∧ stores = none ∧ enters = none ∧ (w.Stopped ∨ ∃ d, w.WaitsFor status d)) ∨
      unclaimedCost G tasks (store status stores) + w'.cost G <
        unclaimedCost G tasks status + w.cost G := by
  have hclaim : ∀ {roots t d remaining frames},
      w = ⟨roots, ⟨t, d :: remaining⟩ :: frames, .running⟩ →
      status d = .notStarted → unclaimedCost G tasks (store status (some (d, .inProgress))) +
        G.cost d = unclaimedCost G tasks status := by
    rintro roots t d remaining frames rfl hstat
    have ht : t ∈ tasks := hw.frames ⟨t, d :: remaining⟩ (by simp)
    exact unclaimedCost_claim (hclosed t ht d (hlink.remaining _ (mem_cons_self ..) d
      (mem_cons_self ..))) hstat
  have hle : unclaimedCost G tasks (store status stores) ≤ unclaimedCost G tasks status :=
    Finset.sum_le_sum fun u _ => by
      rcases stores with _ | ⟨t, x⟩
      · exact le_rfl
      · rcases eq_or_ne u t with rfl | hne
        · simp [h.ne_notStarted rfl]
        · simp [hne]
  cases h with
  | wait hstat => exact .inl ⟨rfl, rfl, rfl, .inr ⟨_, hstat, rfl, _, _, _, rfl⟩⟩
  | stopped hstopped => exact .inl ⟨rfl, rfl, rfl, .inl hstopped⟩
  | claim hstat | claimPrevious hstat | previousNotExecuted hstat | later hstat =>
    have hcost := hclaim rfl hstat
    simp only [Worker.cost, Control.cost, cost, Tasks.cost, map_cons, sum_cons,
      length_cons] at hcost ⊢
    omega
  | start | ready | dependentFailed | migrated | migrationThrows | executed | executeThrows
  | unwind | unwindRoot =>
    simp only [Worker.cost, Control.cost, cost, Tasks.cost, map_cons, sum_cons, length_cons]
    omega

/-! ### Termination -/

/-- Finitely many tasks lie below the tasks of a list. -/
lemma Tasks.exists_closed (G : Tasks T) (ts : List T) :
    ∃ tasks : Finset T, (∀ t ∈ ts, t ∈ tasks) ∧ G.IsClosed tasks := by
  have hlist : ∀ ts : List T, (∀ t ∈ ts, ∃ tasks : Finset T, t ∈ tasks ∧ G.IsClosed tasks) →
      ∃ tasks : Finset T, (∀ t ∈ ts, t ∈ tasks) ∧ G.IsClosed tasks := by
    intro ts hts
    induction ts with
    | nil => exact ⟨∅, by simp, by simp [Tasks.IsClosed]⟩
    | cons t ts ih =>
      obtain ⟨K, hK, hclosed⟩ := ih fun u hu => hts u (by simp [hu])
      obtain ⟨L, hL, hclosed'⟩ := hts t (by simp)
      refine ⟨K ∪ L, by simp +contextual [hK, hL], fun u hu d hd => ?_⟩
      rcases Finset.mem_union.1 hu with hu | hu
      · exact Finset.mem_union_left _ (hclosed u hu d hd)
      · exact Finset.mem_union_right _ (hclosed' u hu d hd)
  have htask : ∀ t, ∃ tasks : Finset T, t ∈ tasks ∧ G.IsClosed tasks := by
    intro t
    induction t using G.acyclic.induction with
    | h t ih =>
      obtain ⟨K, hK, hclosed⟩ := hlist (G.dependent t) ih
      refine ⟨insert t K, by simp, fun u hu d hd => ?_⟩
      rcases Finset.mem_insert.1 hu with rfl | hu
      · exact Finset.mem_insert_of_mem (hK d hd)
      · exact Finset.mem_insert_of_mem (hclosed u hu d hd)
  exact hlist ts fun t _ => htask t

variable [DecidableEq ι] [Fintype ι] {s s' : State ι T} {i : ι}

def State.cost (G : Tasks T) (tasks : Finset T) (s : State ι T) : Nat :=
  unclaimedCost G tasks s.status + ∑ i, (s.workers i).cost G

omit [DecidableEq T] in
lemma sum_update (f : Worker T → Nat) (workers : ι → Worker T) (i : ι) (w : Worker T) :
    ∑ j, f (update workers i w j) + f (workers i) = ∑ j, f (workers j) + f w := by
  have hupdate : (fun j => f (update workers i w j)) =
      update (fun j => f (workers j)) i (f w) := by
    funext j
    exact apply_update (fun _ => f) workers i w j
  rw [hupdate, Finset.sum_update_of_mem (Finset.mem_univ i),
    Finset.sum_eq_add_sum_sdiff_singleton_of_mem (Finset.mem_univ i) fun j => f (workers j)]
  omega

lemma Step.cost_lt (h : Step G multiProcess i s s')
    (hclosed : G.IsClosed tasks)
    (hlink : (s.workers i).Linked G) (hwithin : (s.workers i).Within tasks) :
    (s' = s ∧ ((s.workers i).Stopped ∨ ∃ d, (s.workers i).WaitsFor s.status d)) ∨
      s'.cost G tasks < s.cost G tasks := by
  obtain ⟨w, stores, enters, hstep, rfl⟩ := h
  rcases hstep.cost_lt hclosed hlink hwithin with ⟨rfl, rfl, rfl, hidle⟩ | hlt
  · exact .inl ⟨by simp, hidle⟩
  · have hsum := sum_update (Worker.cost G) s.workers i w
    simp only [State.cost]
    omega

/-- The invariant, for workers whose tasks are among those given. -/
def InvariantWithin (G : Tasks T) (tasks : Finset T) (s : State ι T) : Prop :=
  Invariant G s ∧ ∀ i, (s.workers i).Within tasks

omit [Fintype ι] in
lemma InvariantWithin.step (hemits : ∀ t, ∀ d ∈ G.dependent t, G.emitsResult d)
    (hclosed : G.IsClosed tasks) (hs : InvariantWithin G tasks s)
    (h : SafeStep G multiProcess i s s') : InvariantWithin G tasks s' := by
  refine ⟨hs.1.step hemits h, fun j => ?_⟩
  obtain ⟨⟨w, stores, enters, hstep, rfl⟩, -⟩ := h
  rcases eq_or_ne j i with rfl | hne
  · simpa using hstep.within hclosed (hs.1.linked j) (hs.2 j)
  · simpa [hne] using hs.2 j

/-- As long as a worker has not stopped, there is one that does not wait and whose steps decrease
the measure. -/
lemma InvariantWithin.exists_progress (hclosed : G.IsClosed tasks)
    (hs : InvariantWithin G tasks s) (h : ¬ ∀ i, (s.workers i).Stopped) :
    ∃ i, ¬ (s.workers i).Stopped ∧ (∀ d, ¬ (s.workers i).WaitsFor s.status d) ∧
      ∀ s', Step G multiProcess i s s' → s'.cost G tasks < s.cost G tasks := by
  obtain ⟨i, hi, hwaits⟩ := hs.1.exists_ready (not_forall.1 h)
  refine ⟨i, hi, hwaits, fun s' hstep => ?_⟩
  rcases hstep.cost_lt hclosed (hs.1.linked i) (hs.2 i) with ⟨-, hidle⟩ | hlt
  · rcases hidle with hstopped | ⟨d, hd⟩
    · exact absurd hstopped hi
    · exact absurd hd (hwaits d)
  · exact hlt

/-- **Termination of a stage.** If every dependent task emits a result and no step leaves a claimed
task behind, then in every fair interleaving all workers stop, whatever tasks throw. -/
theorem exists_all_stopped (hemits : ∀ t, ∀ d ∈ G.dependent t, G.emitsResult d)
    {status : T → Status} (hstatus : ∀ t, status t ≠ .inProgress) (roots : ι → List T)
    (entered : List T) (run : Run fun i : ι => SafeStep G multiProcess i) (hfair : run.IsFair)
    (hstart : run.state 0 = ⟨status, fun i => ⟨roots i, [], .running⟩, entered⟩) :
    ∃ n, ∀ i, ((run.state n).workers i).Stopped := by
  obtain ⟨tasks, htasks, hclosed⟩ := G.exists_closed (Finset.univ.toList.flatMap roots)
  have hroots : ∀ i, ∀ r ∈ roots i, r ∈ tasks :=
    fun i r hr => htasks r (mem_flatMap.2 ⟨i, by simp, hr⟩)
  have hinvariant : ∀ n, InvariantWithin G tasks (run.state n) :=
    run.invariant (by
      rw [hstart]
      exact ⟨⟨fun _ => ⟨by simp, by simp⟩, fun d hd => absurd hd (hstatus d)⟩,
        fun i => ⟨hroots i, by simp⟩⟩) fun _ _ _ hs hstep => hs.step hemits hclosed hstep
  refine run.exists_done hfair (fun s => ∀ i, (s.workers i).Stopped) (State.cost G tasks)
    hinvariant ?_ ?_
  · intro i s s' hs hstep
    exact (hstep.1.cost_lt hclosed (hs.1.linked i) (hs.2 i)).imp_left And.left
  · intro s hs hdone
    obtain ⟨i, -, -, hlt⟩ := hs.exists_progress hclosed hdone
    exact ⟨i, fun s' hstep => hlt s' hstep.1⟩

/-! ### Two workers with a shared dependent task -/

/-- Two root tasks and the task they both depend on. -/
inductive SharedTask where
  | shared | first | second
  deriving DecidableEq

/-- The graph of the three tasks, with the shared task in the given stage. -/
def sharedTasks (stage : Nat) : Tasks SharedTask where
  stageId t := if t = .shared then stage else 1
  dependencies t := if t = .shared then [] else [.shared]
  subqueries _ := []
  emitsResult _ := true
  acyclic := by
    refine Subrelation.wf (r := InvImage (· < ·) fun t => if t = SharedTask.shared then 0 else 1)
      (fun {d t} h => ?_) (InvImage.wf _ Nat.lt_wfRel.wf)
    cases t <;> simp_all [InvImage]

/-- Two workers, while the shared task has the given status. -/
def twoWorkers (x : Status) (a b : Worker SharedTask) (entered : List SharedTask) :
    State Bool SharedTask where
  status t := if t = .shared then x else .notStarted
  workers i := if i then b else a
  entered := entered

section
variable {stage : Nat} {multiProcess : Bool} {x y : Status} {a b w : Worker SharedTask}
  {stores : Option (SharedTask × Status)} {enters : Option SharedTask} {entered : List SharedTask}

lemma step_twoWorkers (i : Bool) (h : WorkerStep (sharedTasks stage) multiProcess
      (twoWorkers x a b entered).status (cond i b a) w stores enters)
    (hstores : stores = none ∧ y = x ∨ stores = some (.shared, y)) :
    Step (sharedTasks stage) multiProcess i (twoWorkers x a b entered)
      (twoWorkers y (cond i a w) (cond i w b) (enters.toList ++ entered)) := by
  have hworkers : (twoWorkers y (cond i a w) (cond i w b) (enters.toList ++ entered)).workers =
      update (twoWorkers x a b entered).workers i w := by
    funext j
    cases i <;> cases j <;> rfl
  have hstat : (twoWorkers y (cond i a w) (cond i w b) (enters.toList ++ entered)).status =
      store (twoWorkers x a b entered).status stores := by
    funext t
    rcases hstores with ⟨rfl, rfl⟩ | rfl
    · rfl
    · by_cases ht : t = .shared <;> simp [twoWorkers, ht]
  refine ⟨w, stores, enters, by cases i <;> exact h, ?_⟩
  rw [← hworkers, ← hstat]
  rfl

/-- A step that stores nothing. -/
lemma step_idle (i : Bool) (h : WorkerStep (sharedTasks stage) multiProcess
      (twoWorkers x a b entered).status (cond i b a) w none enters) :
    Step (sharedTasks stage) multiProcess i (twoWorkers x a b entered)
      (twoWorkers x (cond i a w) (cond i w b) (enters.toList ++ entered)) :=
  step_twoWorkers i h (.inl ⟨rfl, rfl⟩)

end

def turn (n : Nat) : Bool := n % 2 == 1

lemma exists_turn (i : Bool) (n : Nat) : ∃ m, n ≤ m ∧ turn m = i := by
  cases i
  · exact ⟨2 * n, by omega, by simp [turn]⟩
  · exact ⟨2 * n + 1, by omega, by simp [turn]⟩

/-- The shared task throws: the first worker sets its status, and both workers stop. -/
def throwingState : Nat → State Bool SharedTask
  | 0 => twoWorkers .notStarted ⟨[.first], [], .running⟩ ⟨[.second], [], .running⟩ []
  | 1 => twoWorkers .notStarted ⟨[], [⟨.first, [.shared]⟩], .running⟩ ⟨[.second], [], .running⟩
      [.first]
  | 2 => twoWorkers .notStarted ⟨[], [⟨.first, [.shared]⟩], .running⟩
      ⟨[], [⟨.second, [.shared]⟩], .running⟩ [.second, .first]
  | 3 | 4 => twoWorkers .inProgress ⟨[], [⟨.shared, []⟩, ⟨.first, []⟩], .running⟩
      ⟨[], [⟨.second, [.shared]⟩], .running⟩ [.shared, .second, .first]
  | 5 | 6 => twoWorkers .inProgress ⟨[], [⟨.shared, []⟩, ⟨.first, []⟩], .throwing .execute⟩
      ⟨[], [⟨.second, [.shared]⟩], .running⟩ [.shared, .second, .first]
  | 7 => twoWorkers .failed ⟨[], [⟨.first, []⟩], .throwing .execute⟩
      ⟨[], [⟨.second, [.shared]⟩], .running⟩ [.shared, .second, .first]
  | 8 => twoWorkers .failed ⟨[], [⟨.first, []⟩], .throwing .execute⟩
      ⟨[], [⟨.second, []⟩], .throwing .dependentFailed⟩ [.shared, .second, .first]
  | 9 => twoWorkers .failed ⟨[], [], .throwing .execute⟩
      ⟨[], [⟨.second, []⟩], .throwing .dependentFailed⟩ [.shared, .second, .first]
  | _ => twoWorkers .failed ⟨[], [], .throwing .execute⟩ ⟨[], [], .throwing .dependentFailed⟩
      [.shared, .second, .first]

lemma step_throwingState (n : Nat) :
    Step (sharedTasks 1) false (turn n) (throwingState n) (throwingState (n + 1)) := by
  match n with
  | 0 => exact step_idle false .start
  | 1 => exact step_idle true .start
  | 2 => exact step_twoWorkers false (.claim rfl (by rfl)) (.inr rfl)
  | 3 | 5 => exact step_idle true (.wait rfl)
  | 4 => exact step_idle false .executeThrows
  | 6 => exact step_twoWorkers false .unwind (.inr rfl)
  | 7 => exact step_idle true (.dependentFailed rfl)
  | 8 => exact step_idle false .unwindRoot
  | 9 => exact step_idle true .unwindRoot
  | n + 10 =>
    cases turn (n + 10) with
    | false => exact step_idle false (.stopped (.inr ⟨rfl, _, rfl⟩))
    | true => exact step_idle true (.stopped (.inr ⟨rfl, _, rfl⟩))

/-- Both workers stop although the shared task throws. -/
theorem exists_all_stopped_of_throwing : ∃ n, ∀ i, ((throwingState n).workers i).Stopped := by
  have hsafe : ∀ n i e, ((throwingState n).workers i).control = .throwing e →
      e.leavesClaim = false := by
    intro n i e h
    match n with
    | 0 | 1 | 2 | 3 | 4 | 5 | 6 | 7 | 8 | 9 | n + 10 =>
      cases i <;> simp_all [throwingState, twoWorkers] <;> subst h <;> rfl
  have hemits : ∀ t, ∀ d ∈ (sharedTasks 1).dependent t, (sharedTasks 1).emitsResult d := by
    simp [sharedTasks]
  have hstatus : ∀ t, (throwingState 0).status t ≠ .inProgress := by
    intro t
    cases t <;> decide
  have hstart : throwingState 0 = ⟨(throwingState 0).status,
      fun i => ⟨if i then [.second] else [.first], [], .running⟩, []⟩ := by
    have hworkers : (throwingState 0).workers =
        fun i => ⟨if i then [.second] else [.first], [], .running⟩ := by
      funext i
      cases i <;> rfl
    rw [← hworkers]
    rfl
  exact exists_all_stopped hemits hstatus _ [] ⟨throwingState, turn, fun n =>
    ⟨step_throwingState n, hsafe (n + 1) _⟩⟩ exists_turn hstart

/-- The migration of the shared task throws: its status stays in progress. -/
def hangingState : Nat → State Bool SharedTask
  | 0 => twoWorkers .notStarted ⟨[.first], [], .running⟩ ⟨[.second], [], .running⟩ []
  | 1 => twoWorkers .notStarted ⟨[], [⟨.first, [.shared]⟩], .running⟩ ⟨[.second], [], .running⟩
      [.first]
  | 2 => twoWorkers .notStarted ⟨[], [⟨.first, [.shared]⟩], .running⟩
      ⟨[], [⟨.second, [.shared]⟩], .running⟩ [.second, .first]
  | 3 | 4 => twoWorkers .inProgress ⟨[], [⟨.first, []⟩], .migrating .shared⟩
      ⟨[], [⟨.second, [.shared]⟩], .running⟩ [.second, .first]
  | 5 | 6 => twoWorkers .inProgress ⟨[], [⟨.first, []⟩], .throwing .migration⟩
      ⟨[], [⟨.second, [.shared]⟩], .running⟩ [.second, .first]
  | _ => twoWorkers .inProgress ⟨[], [], .throwing .migration⟩
      ⟨[], [⟨.second, [.shared]⟩], .running⟩ [.second, .first]

lemma step_hangingState (n : Nat) :
    Step (sharedTasks 0) true (turn n) (hangingState n) (hangingState (n + 1)) := by
  match n with
  | 0 => exact step_idle false .start
  | 1 => exact step_idle true .start
  | 2 => exact step_twoWorkers false (.claimPrevious rfl (by decide) rfl) (.inr rfl)
  | 3 | 5 => exact step_idle true (.wait rfl)
  | 4 => exact step_idle false .migrationThrows
  | 6 => exact step_idle false .unwindRoot
  | n + 7 =>
    cases turn (n + 7) with
    | false => exact step_idle false (.stopped (.inr ⟨rfl, _, rfl⟩))
    | true => exact step_idle true (.wait rfl)

/-- A fair run in which the second worker never stops: it waits for the task whose migration the
first worker has given up. -/
theorem migration_failure_hangs :
    ∃ run : Run fun i : Bool => Step (sharedTasks 0) true i, run.IsFair ∧
      run.state 0 = twoWorkers .notStarted ⟨[.first], [], .running⟩ ⟨[.second], [], .running⟩ [] ∧
      ∀ n, ¬ ((run.state n).workers true).Stopped := by
  refine ⟨⟨hangingState, turn, step_hangingState⟩, exists_turn, rfl, fun n => ?_⟩
  match n with
  | 0 | 1 | 2 | 3 | 4 | 5 | 6 | n + 7 =>
    simp [hangingState, twoWorkers, Worker.Stopped, Worker.Finished]

end Gqe.Executor
