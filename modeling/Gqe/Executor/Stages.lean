import Gqe.Executor.Termination

/-!
# Stages

A process executes the stages of a task graph one after another (`execute_task_graph_single_gpu`,
`execute_task_graph_multi_process`). The root tasks of a stage that are executed locally are dealt
to the workers in turn. If the root tasks of each stage do not need each other, no task is executed
twice.
-/

namespace Gqe.Executor

open Interleaving Relation List Worker Function

variable {T : Type*} {G : Tasks T} {multiProcess : Bool}

/-! ### The tasks of a worker -/

/-- The tasks of a worker: its loop starts at `workerIdx` and advances by `numWorkers`. -/
def workerTasks (numWorkers workerIdx : Nat) (tasks : List T) : List T :=
  (tasks.zipIdx.filter fun x => x.2 % numWorkers == workerIdx).map Prod.fst

variable {numWorkers : Nat} {t : T} {tasks : List T}

lemma mem_workerTasks {i : Nat} :
    t ∈ workerTasks numWorkers i tasks ↔ ∃ idx, tasks[idx]? = some t ∧ idx % numWorkers = i := by
  simp [workerTasks, mem_zipIdx_iff_getElem?]

lemma workerTasks_sublist (numWorkers i : Nat) (tasks : List T) :
    (workerTasks numWorkers i tasks).Sublist tasks := by
  have h : ((tasks.zipIdx.filter fun x => x.2 % numWorkers == i).map Prod.fst).Sublist
      (tasks.zipIdx.map Prod.fst) := filter_sublist.map _
  rwa [zipIdx_map_fst] at h

lemma eq_of_mem_workerTasks {i j : Nat} (hnd : tasks.Nodup)
    (hi : t ∈ workerTasks numWorkers i tasks) (hj : t ∈ workerTasks numWorkers j tasks) :
    i = j := by
  obtain ⟨a, ha, rfl⟩ := mem_workerTasks.1 hi
  obtain ⟨b, hb, rfl⟩ := mem_workerTasks.1 hj
  obtain ⟨ha', rfl⟩ := List.getElem?_eq_some_iff.1 ha
  obtain ⟨hb', hb⟩ := List.getElem?_eq_some_iff.1 hb
  rw [(hnd.getElem_inj_iff).1 hb]

lemma exists_mem_workerTasks (ht : t ∈ tasks)
    (hpos : 0 < numWorkers) : ∃ i < numWorkers, t ∈ workerTasks numWorkers i tasks := by
  obtain ⟨idx, hidx⟩ := List.getElem?_of_mem ht
  exact ⟨idx % numWorkers, Nat.mod_lt _ hpos, mem_workerTasks.2 ⟨idx, hidx, rfl⟩⟩

/-! ### Steps of a process -/

/-- A process with its workers, and how many stages it has started. -/
structure Process (maxNumWorkers : Nat) (T : Type*) where
  state : State (Fin maxNumWorkers) T
  started : Nat

variable {maxNumWorkers : Nat}

@[simp] def Worker.idle : Worker T := ⟨[], [], .running⟩

@[simp] def Process.initial : Process maxNumWorkers T :=
  ⟨⟨fun _ => .notStarted, fun _ => .idle, []⟩, 0⟩

/-- Deal the root tasks of a stage that are executed locally. -/
@[simp] def State.startStage (executeLocally : T → Bool) (rootTasks : List T)
    (s : State (Fin maxNumWorkers) T) : State (Fin maxNumWorkers) T :=
  let numWorkers := min maxNumWorkers rootTasks.length
  { s with
    workers := fun i => ⟨workerTasks numWorkers i (rootTasks.filter executeLocally), [], .running⟩ }

variable {enters : Option T} {status : T → Status} {stores : Option (T × Status)} {w : Worker T}

/-! ### Independent root tasks -/

/-- A task prepares another one. -/
def Tasks.DependsOn (G : Tasks T) (t d : T) : Prop := d ∈ G.dependent t

/-- A task prepares another one of its stage. -/
def Tasks.SameStage (G : Tasks T) (t d : T) : Prop := d ∈ G.dependent t ∧ G.stageId d = G.stageId t

lemma Tasks.stageId_of_sameStage {d : T} (h : ReflTransGen G.SameStage t d) :
    G.stageId d = G.stageId t := by
  induction h with
  | refl => rfl
  | tail _ h ih => exact h.2.trans ih

/-- The root tasks of stage `k` may be executed without claiming them. -/
structure Tasks.IsRootList (G : Tasks T) (k : Nat) (rootTasks : List T) : Prop where
  stageId : ∀ t ∈ rootTasks, G.stageId t = k
  nodup : rootTasks.Nodup
  independent : ∀ t ∈ rootTasks, ∀ u ∈ rootTasks, ¬ TransGen G.DependsOn t u

/-- A task is a root task of stage `k`. -/
def IsRoot (stageRootTasks : List (List T)) (k : Nat) (t : T) : Prop :=
  ∃ rootTasks, stageRootTasks[k]? = some rootTasks ∧ t ∈ rootTasks

/-- A task is executed in stage `k` if that is started: a root task or one that is prepared on the
way to a root task of its stage. -/
def Tasks.Covered (G : Tasks T) (stageRootTasks : List (List T)) (k : Nat) (t : T) : Prop :=
  ∃ r, IsRoot stageRootTasks k r ∧ ReflTransGen G.SameStage r t

variable {executeLocally : T → Bool} {stageRootTasks : List (List T)}
  {s s' : State (Fin maxNumWorkers) T} {k : Nat} {w' : Worker T}

/-- What a step of a worker does to its root tasks and calls: it executes its next root task, or a
task it has claimed, or goes on with its calls. -/
lemma WorkerStep.cases_enters (h : WorkerStep G multiProcess status w w' stores enters)
    (hw : w.Linked G) :
    (enters = none ∧ w'.roots = w.roots ∧ ∀ f ∈ w'.frames, ∃ g ∈ w.frames, g.task = f.task) ∨
    (∃ r, enters = some r ∧ stores = none ∧ w.roots = r :: w'.roots ∧ ∀ f ∈ w'.frames, f.task = r) ∨
    (∃ d, ∃ g ∈ w.frames, enters = some d ∧ stores = some (d, .inProgress) ∧
      w'.roots = w.roots ∧ status d = .notStarted ∧ G.SameStage g.task d ∧
      ∀ f ∈ w'.frames, f.task = d ∨ ∃ g ∈ w.frames, g.task = f.task) := by
  cases h with
  | start => exact .inr (.inl ⟨_, rfl, rfl, rfl, by simp⟩)
  | @claim roots t d remaining frames hstat hstage =>
    have hd : d ∈ G.dependent t := hw.remaining _ mem_cons_self d mem_cons_self
    refine .inr (.inr ⟨d, _, mem_cons_self, rfl, rfl, rfl, hstat, ⟨hd, hstage⟩, ?_⟩)
    intro f hf
    rcases mem_cons.1 hf with rfl | hf
    · exact .inl rfl
    rcases mem_cons.1 hf with rfl | hf
    · exact .inr ⟨_, mem_cons_self, rfl⟩
    · exact .inr ⟨f, mem_cons_of_mem _ hf, rfl⟩
  | claimPrevious | previousNotExecuted | later | ready | dependentFailed =>
    refine .inl ⟨rfl, rfl, ?_⟩
    simp only [forall_mem_cons]
    exact ⟨⟨_, mem_cons_self, rfl⟩, fun f hf => ⟨f, mem_cons_of_mem _ hf, rfl⟩⟩
  | wait | stopped | migrated | migrationThrows | executeThrows =>
    exact .inl ⟨rfl, rfl, fun f hf => ⟨f, hf, rfl⟩⟩
  | executed | unwind => exact .inl ⟨rfl, rfl, fun f hf => ⟨f, mem_cons_of_mem _ hf, rfl⟩⟩
  | unwindRoot => exact .inl ⟨rfl, rfl, by simp⟩

variable {ι : Type*}

lemma forall_update [DecidableEq ι] {workers : ι → Worker T} {i : ι} {P : Worker T → Prop}
    (hw : P w) (h : ∀ j, P (workers j)) (j : ι) :
    P (update workers i w j) := by
  rw [update_apply]
  split
  · exact hw
  · exact h j

/-! ### Waiting workers -/

/-- A worker waits for a task that another worker has claimed. -/
def State.Waits {ι : Type*} (s : State ι T) (i j : ι) : Prop :=
  ∃ d, (s.workers i).WaitsFor s.status d ∧ (s.workers j).Owns d

/-- On a chain of waiting workers the tasks they wait for get lower and lower. -/
lemma State.exists_of_transGen_waits {s : State ι T} (hlink : ∀ i, (s.workers i).Linked G) {i j : ι}
    (h : TransGen s.Waits i j) :
    ∃ d d', (s.workers i).WaitsFor s.status d ∧ (s.workers j).Owns d' ∧
      (d' = d ∨ G.Below d' d) := by
  induction h with
  | single h =>
    obtain ⟨d, hwaits, howns⟩ := h
    exact ⟨d, d, hwaits, howns, .inl rfl⟩
  | tail _ h ih =>
    obtain ⟨d, d', hwaits, howns, hle⟩ := ih
    obtain ⟨d'', hwaits', howns'⟩ := h
    have hbelow : G.Below d'' d' := hwaits'.below (hlink _) howns
    refine ⟨d, d'', hwaits, howns', .inr ?_⟩
    rcases hle with rfl | hle
    · exact hbelow
    · exact hbelow.trans hle

lemma State.not_transGen_waits {s : State ι T} (hlink : ∀ i, (s.workers i).Linked G) (i : ι) :
    ¬ TransGen s.Waits i i := by
  intro h
  obtain ⟨d, d', hwaits, howns, hle⟩ := exists_of_transGen_waits hlink h
  have hbelow : G.Below d d' := hwaits.below (hlink i) howns
  have hirrefl : ∀ t, ¬ G.Below t t := fun t => G.wellFounded_below.irrefl.irrefl t
  rcases hle with rfl | hle
  · exact hirrefl _ hbelow
  · exact hirrefl _ (hbelow.trans hle)

/-! ### Processes -/

section

variable [DecidableEq T]

/-- A step of a process. The next stage starts after all workers have executed their tasks; an
exception of a worker ends the execution. -/
inductive Process.Step (G : Tasks T) (multiProcess : Bool) (executeLocally : T → Bool)
    (stageRootTasks : List (List T)) : Process maxNumWorkers T → Process maxNumWorkers T → Prop
  | worker {s s' i k} : Executor.Step G multiProcess i s s' →
    Process.Step G multiProcess executeLocally stageRootTasks ⟨s, k⟩ ⟨s', k⟩
  | nextStage {s k rootTasks} : (∀ i, (s.workers i).Finished) →
    stageRootTasks[k]? = some rootTasks →
    Process.Step G multiProcess executeLocally stageRootTasks ⟨s, k⟩
      ⟨s.startStage executeLocally rootTasks, k + 1⟩

/-- The process gets from one state to another in some interleaving of its workers. -/
abbrev Process.Runs (G : Tasks T) (multiProcess : Bool) (executeLocally : T → Bool)
    (stageRootTasks : List (List T)) :
    Process maxNumWorkers T → Process maxNumWorkers T → Prop :=
  ReflTransGen (Process.Step G multiProcess executeLocally stageRootTasks)

lemma Process.Step.single {entered : List T}
    (h : WorkerStep G multiProcess status w w' stores enters) :
    Process.Step G multiProcess executeLocally stageRootTasks
      (⟨⟨status, fun _ => w, entered⟩, k⟩ : Process 1 T)
      ⟨⟨store status stores, fun _ => w', enters.toList ++ entered⟩, k⟩ := by
  refine .worker (i := 0) ⟨w', stores, enters, h, ?_⟩
  congr
  funext i
  rw [Subsingleton.elim i 0, update_self]

lemma Process.Step.nextStage_single {entered rootTasks roots : List T}
    (h : stageRootTasks[k]? = some rootTasks)
    (hroots : workerTasks (min 1 rootTasks.length) 0 (rootTasks.filter executeLocally) = roots) :
    Process.Step G multiProcess executeLocally stageRootTasks
      (⟨⟨status, fun _ => .idle, entered⟩, k⟩ : Process 1 T)
      ⟨⟨status, fun _ => ⟨roots, [], .running⟩, entered⟩, k + 1⟩ := by
  have hfin : ∀ i, ((⟨status, fun _ => .idle, entered⟩ : State (Fin 1) T).workers i).Finished :=
    fun _ => ⟨rfl, rfl, rfl⟩
  convert nextStage hfin h using 2
  congr
  funext i
  rw [Subsingleton.elim i 0, ← hroots]
  rfl

lemma WorkerStep.store_ne_notStarted (h : WorkerStep G multiProcess status w w' stores enters)
    (ht : status t ≠ .notStarted) : store status stores t ≠ .notStarted := by
  cases stores with
  | none => exact ht
  | some x =>
    rw [store, update_apply]
    split
    · exact h.ne_notStarted rfl
    · exact ht

end

/-! ### At most one execution -/

/-- No task was executed twice, and none of the root tasks that are left was executed. -/
structure ExecutedOnce (G : Tasks T) (stageRootTasks : List (List T))
    (p : Process maxNumWorkers T) : Prop where
  linked : ∀ i, (p.state.workers i).Linked G
  covered : ∀ i, ∀ f ∈ (p.state.workers i).frames,
    ∃ k, p.started = k + 1 ∧ G.Covered stageRootTasks k f.task
  roots : ∀ i, ∀ t ∈ (p.state.workers i).roots, ∃ k, p.started = k + 1 ∧ IsRoot stageRootTasks k t
  roots_nodup : ∀ i, (p.state.workers i).roots.Nodup
  roots_inj : ∀ i j t, t ∈ (p.state.workers i).roots → t ∈ (p.state.workers j).roots → i = j
  roots_not_mem : ∀ i, ∀ t ∈ (p.state.workers i).roots, t ∉ p.state.entered
  nodup : p.state.entered.Nodup
  entered : ∀ t ∈ p.state.entered, G.stageId t < p.started ∧
    (IsRoot stageRootTasks (G.stageId t) t ∨ p.state.status t ≠ .notStarted)

lemma executedOnce_initial :
    ExecutedOnce G stageRootTasks (.initial : Process maxNumWorkers T) where
  linked i := ⟨by simp, by simp⟩
  covered := by simp
  roots := by simp
  roots_nodup := by simp
  roots_inj := by simp
  roots_not_mem := by simp
  nodup := by simp
  entered := by simp

variable (hroots : ∀ k ts, stageRootTasks[k]? = some ts → G.IsRootList k ts)
include hroots

/-- A task that is prepared on the way to a root task of its stage is no root task. -/
lemma Tasks.IsRootList.not_isRoot {d : T} (ht : G.Covered stageRootTasks k t)
    (hd : G.SameStage t d) :
    ¬ IsRoot stageRootTasks k d := by
  rintro ⟨ts, hts, hmem⟩
  obtain ⟨r, ⟨ts', hts', hr⟩, hrt⟩ := ht
  cases hts.symm.trans hts'
  exact (hroots k ts hts).independent r hr d hmem
    (TransGen.mono (fun _ _ h => h.1) _ _ (.tail' hrt hd))

lemma Tasks.Covered.stageId (ht : G.Covered stageRootTasks k t) : G.stageId t = k := by
  obtain ⟨r, ⟨ts, hts, hr⟩, hrt⟩ := ht
  rw [stageId_of_sameStage hrt, (hroots k ts hts).stageId r hr]

lemma ExecutedOnce.startStage (hs : ExecutedOnce G stageRootTasks ⟨s, k⟩) {rootTasks : List T}
    (hrootTasks : stageRootTasks[k]? = some rootTasks) :
    ExecutedOnce G stageRootTasks ⟨s.startStage executeLocally rootTasks, k + 1⟩ where
  linked i := ⟨by simp, by simp⟩
  covered := by simp
  roots i t ht :=
    ⟨k, rfl, rootTasks, hrootTasks, mem_of_mem_filter ((workerTasks_sublist _ _ _).subset ht)⟩
  roots_nodup i := ((hroots k _ hrootTasks).nodup.filter _).sublist (workerTasks_sublist _ _ _)
  roots_inj i j t hi hj :=
    Fin.ext (eq_of_mem_workerTasks ((hroots k _ hrootTasks).nodup.filter _) hi hj)
  roots_not_mem i t ht hmem := by
    have hstage := (hroots k _ hrootTasks).stageId t
      (mem_of_mem_filter ((workerTasks_sublist _ _ _).subset ht))
    exact (hs.entered t hmem).1.ne hstage
  nodup := hs.nodup
  entered t ht := ⟨Nat.lt_succ_of_lt (hs.entered t ht).1, (hs.entered t ht).2⟩

variable [DecidableEq T]

/-- A task that a worker enters was not entered before, and is none of the root tasks that are
left. -/
lemma ExecutedOnce.entering (hs : ExecutedOnce G stageRootTasks ⟨s, k⟩) {i : Fin maxNumWorkers}
    (h : WorkerStep G multiProcess s.status (s.workers i) w stores enters) :
    w.roots.Sublist (s.workers i).roots ∧
    (∀ f ∈ w.frames, ∃ k', k = k' + 1 ∧ G.Covered stageRootTasks k' f.task) ∧
    ∀ t ∈ enters.toList, t ∉ s.entered ∧ t ∉ w.roots ∧ (∀ j ≠ i, t ∉ (s.workers j).roots) ∧
      G.stageId t < k ∧
      (IsRoot stageRootTasks (G.stageId t) t ∨ store s.status stores t ≠ .notStarted) := by
  have hframes : ∀ f ∈ (s.workers i).frames, ∃ k', k = k' + 1 ∧
      G.Covered stageRootTasks k' f.task := hs.covered i
  rcases h.cases_enters (hs.linked i) with ⟨rfl, hsame, hold⟩ | ⟨r, rfl, rfl, hnext, hr⟩ |
    ⟨d, g, hg, rfl, rfl, hsame, hstat, hd, hold⟩
  · refine ⟨by rw [hsame], fun f hf => ?_, by simp⟩
    obtain ⟨g, hg, hgf⟩ := hold f hf
    exact hgf ▸ hframes g hg
  · have hmem : r ∈ (s.workers i).roots := by simp [hnext]
    obtain ⟨k', hk, hroot⟩ := hs.roots i r hmem
    simp only at hk
    obtain ⟨ts, hts, hrts⟩ := hroot
    have hstage : G.stageId r = k' := (hroots k' ts hts).stageId r hrts
    have hnd : (r :: w.roots).Nodup := hnext ▸ hs.roots_nodup i
    refine ⟨by simp [hnext], fun f hf => ⟨k', hk, r, ⟨ts, hts, hrts⟩, hr f hf ▸ .refl⟩, ?_⟩
    simp only [Option.toList_some, mem_singleton, forall_eq]
    refine ⟨hs.roots_not_mem i r hmem, (nodup_cons.1 hnd).1, fun j hj hmem' => ?_, ?_, ?_⟩
    · exact hj (hs.roots_inj j i r hmem' hmem)
    · omega
    · exact .inl ⟨ts, hstage ▸ hts, hrts⟩
  · obtain ⟨k', hk, hcov⟩ := hframes g hg
    have hstage : G.stageId d = k' := hd.2.trans (hcov.stageId hroots)
    have hnot : ¬ IsRoot stageRootTasks k' d :=
      Tasks.IsRootList.not_isRoot hroots hcov hd
    -- The claimed task was not started, and it is no root task of its stage.
    have hnotRoot : ∀ j, d ∉ (s.workers j).roots := by
      intro j hj
      obtain ⟨k'', hk', hroot⟩ := hs.roots j d hj
      simp only at hk'
      obtain rfl : k' = k'' := by omega
      exact hnot hroot
    refine ⟨by rw [hsame], fun f hf => ?_, ?_⟩
    · rcases hold f hf with hfd | ⟨g', hg', hgf⟩
      · obtain ⟨r, hr, hrg⟩ := hcov
        exact ⟨k', hk, r, hr, hfd ▸ hrg.tail hd⟩
      · exact hgf ▸ hframes g' hg'
    · simp only [Option.toList_some, mem_singleton, forall_eq]
      refine ⟨fun hmem => ?_, hsame ▸ hnotRoot i, fun j _ => hnotRoot j, by omega, .inr ?_⟩
      · rcases (hs.entered d hmem).2 with hroot | hne
        · exact hnot (hstage ▸ hroot)
        · exact hne hstat
      · simp

lemma ExecutedOnce.step (hs : ExecutedOnce G stageRootTasks ⟨s, k⟩) {i : Fin maxNumWorkers}
    (h : Step G multiProcess i s s') : ExecutedOnce G stageRootTasks ⟨s', k⟩ := by
  obtain ⟨w, stores, enters, hstep, rfl⟩ := h
  obtain ⟨hsub, hframes, hnew⟩ := hs.entering hroots hstep
  have hmem : ∀ {j t}, t ∈ (update s.workers i w j).roots → t ∈ (s.workers j).roots := by
    intro j t ht
    by_cases hj : j = i
    · subst hj
      exact hsub.subset (by simpa using ht)
    · simpa [hj] using ht
  refine ⟨?_, ?_, ?_, ?_, ?_, ?_, ?_, ?_⟩
  · exact forall_update (hstep.linked (hs.linked i)) hs.linked
  · exact forall_update
      (P := fun w => ∀ f ∈ w.frames, ∃ k', k = k' + 1 ∧ G.Covered stageRootTasks k' f.task)
      hframes hs.covered
  · exact fun j t ht => hs.roots j t (hmem ht)
  · exact forall_update (P := fun w => w.roots.Nodup) ((hs.roots_nodup i).sublist hsub)
      hs.roots_nodup
  · exact fun j j' t ht ht' => hs.roots_inj j j' t (hmem ht) (hmem ht')
  · intro j t ht hent
    rcases mem_append.1 hent with hent | hent
    · obtain ⟨-, hw, hothers, -⟩ := hnew t hent
      by_cases hj : j = i
      · subst hj
        exact hw (by simpa using ht)
      · exact hothers j hj (by simpa [hj] using ht)
    · exact hs.roots_not_mem j t (hmem ht) hent
  · refine nodup_append.2 ⟨?_, hs.nodup, ?_⟩
    · cases enters <;> simp
    · rintro t ht u hu rfl
      exact (hnew t ht).1 hu
  · intro t ht
    rcases mem_append.1 ht with ht | ht
    · exact (hnew t ht).2.2.2
    · obtain ⟨hlt, hor⟩ := hs.entered t ht
      exact ⟨hlt, hor.imp_right hstep.store_ne_notStarted⟩

/-- What a run keeps. -/
lemma Process.Runs.executedOnce {p : Process maxNumWorkers T}
    (h : Process.Runs G multiProcess executeLocally stageRootTasks .initial p) :
    ExecutedOnce G stageRootTasks p := by
  induction h with
  | refl => exact executedOnce_initial
  | tail _ hstep ih =>
    cases hstep with
    | worker hstep => exact ih.step hroots hstep
    | nextStage _ hrootTasks => exact ih.startStage hroots hrootTasks

end Gqe.Executor
