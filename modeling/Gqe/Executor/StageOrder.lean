import Gqe.Executor.Stages

/-!
# The order of the stages

A task may depend on tasks of earlier stages, and these have to be executed by then. This is so in
every run exactly if each task that is executed in a stage depends only on tasks that are executed
in this stage or in an earlier one.
-/

namespace Gqe.Executor

open Relation List Process State Function

variable {T : Type*} {G : Tasks T} {maxNumWorkers : Nat} {stageRootTasks : List (List T)}

/-- The exceptions that say that the stages are in the wrong order. -/
def Exception.isStageError : Exception → Bool
  | .previousStageNotExecuted | .laterStage => true
  | _ => false

/-- A worker has thrown an exception that says that the stages are in the wrong order. -/
@[simp] def Process.RaisesStageError (p : Process maxNumWorkers T) : Prop :=
  ∃ i e, (p.state.workers i).control = .throwing e ∧ e.isStageError

/-- The tasks that are executed in a stage depend only on tasks that are executed by then. -/
def Tasks.IsOrdered (G : Tasks T) (stageRootTasks : List (List T)) : Prop :=
  ∀ k t, G.Covered stageRootTasks k t → ∀ d ∈ G.dependent t,
    G.stageId d ≤ k ∧ G.Covered stageRootTasks (G.stageId d) d

/-! ### The tasks of a stage -/

/-- While no exception was thrown, what is not prepared is still to be done. -/
structure Executing (G : Tasks T) (stageRootTasks : List (List T)) (p : Process maxNumWorkers T) :
    Prop where
  running : ∀ i, (p.state.workers i).control = .running
  visited : ∀ i, ∀ f ∈ (p.state.workers i).frames, ∀ d ∈ G.dependent f.task,
    d ∈ f.remaining ∨ p.state.status d ≠ .notStarted
  finished : ∀ t, p.state.status t = .finished → ∀ d ∈ G.dependent t, p.state.status d ≠ .notStarted
  inProgress : ∀ t, p.state.status t = .inProgress →
    ∃ i, ∃ f ∈ (p.state.workers i).frames, f.task = t
  not_failed : ∀ t, p.state.status t ≠ .failed
  covered : ∀ t, p.state.status t ≠ .notStarted →
    G.Covered stageRootTasks (G.stageId t) t ∧ G.stageId t < p.started
  roots : ∀ k r, p.started = k + 1 → IsRoot stageRootTasks k r →
    (∃ i, r ∈ (p.state.workers i).roots) ∨
    (∃ i, ∃ f ∈ (p.state.workers i).frames, f.task = r) ∨ p.state.status r = .finished

lemma executing_initial : Executing G stageRootTasks (.initial : Process maxNumWorkers T) where
  running _ := rfl
  visited := by simp
  finished := by simp
  inProgress := by simp
  not_failed := by simp
  covered := by simp
  roots := by simp

section
variable {s : State (Fin maxNumWorkers) T} {k : Nat} {i : Fin maxNumWorkers}
  {w : Worker T} {status : T → Status} {entered : List T}

lemma exists_update {ι : Type*} [DecidableEq ι] {workers : ι → Worker T} {i : ι} {w : Worker T}
    {P : Worker T → Prop} (hw : P (workers i) → P w) (h : ∃ j, P (workers j)) :
    ∃ j, P (update workers i w j) := by
  obtain ⟨j, hj⟩ := h
  by_cases hji : j = i
  · subst hji
    exact ⟨j, by simpa using hw hj⟩
  · exact ⟨j, by simpa [hji] using hj⟩

/-- A worker is in the call of a task. -/
abbrev Worker.Calls (w : Worker T) (t : T) : Prop := ∃ f ∈ w.frames, f.task = t

/-- A worker goes on: a task that is claimed is called, and a call is left with a finished task. -/
lemma Executing.replace (hs : Executing G stageRootTasks ⟨s, k⟩) (hrun : w.control = .running)
    (hvis : ∀ f ∈ w.frames, ∀ d ∈ G.dependent f.task,
      d ∈ f.remaining ∨ s.status d ≠ .notStarted ∨ status d ≠ .notStarted)
    (hstat : ∀ t, status t = s.status t ∨
      (G.Covered stageRootTasks (G.stageId t) t ∧ G.stageId t < k) ∧
        (status t = .inProgress ∧ s.status t = .notStarted ∧ w.Calls t ∨
          status t = .finished ∧ ∀ d ∈ G.dependent t, s.status d ≠ .notStarted))
    (hcalls : ∀ t, (s.workers i).Calls t → w.Calls t ∨ status t = .finished)
    (hroots : ∀ t ∈ (s.workers i).roots, t ∈ w.roots ∨ w.Calls t) :
    Executing G stageRootTasks ⟨⟨status, update s.workers i w, entered⟩, k⟩ := by
  have hkeep : ∀ t, s.status t ≠ .notStarted → status t ≠ .notStarted := by
    intro t ht
    rcases hstat t with h | ⟨-, h | h⟩
    · rwa [h]
    · simp [h.1]
    · simp [h.1]
  have hcalled : ∀ t, status t ≠ .finished → (∃ j, (s.workers j).Calls t) →
      ∃ j, (update s.workers i w j).Calls t :=
    fun t ht => exists_update (P := (·.Calls t)) fun h => (hcalls t h).resolve_right ht
  constructor
  case running => exact forall_update (P := fun w => w.control = .running) hrun hs.running
  case visited =>
    refine forall_update (P := fun w => ∀ f ∈ w.frames, ∀ d ∈ G.dependent f.task,
      d ∈ f.remaining ∨ status d ≠ .notStarted) (fun f hf d hd => ?_)
      fun j f hf d hd => (hs.visited j f hf d hd).imp_right (hkeep d)
    exact (hvis f hf d hd).imp_right fun h => h.elim (hkeep d) id
  case finished =>
    intro t ht d hd
    rcases hstat t with h | ⟨-, h | h⟩
    · exact hkeep d (hs.finished t (h ▸ ht) d hd)
    · cases h.1.symm.trans ht
    · exact hkeep d (h.2 d hd)
  case inProgress =>
    intro t (ht : status t = .inProgress)
    rcases hstat t with h | ⟨-, h | h⟩
    · exact hcalled t (by simp [ht]) (hs.inProgress t (h ▸ ht))
    · exact ⟨i, by simpa using h.2.2⟩
    · cases h.1.symm.trans ht
  case not_failed =>
    intro t
    rcases hstat t with h | ⟨-, h | h⟩
    · exact h.trans_ne (hs.not_failed t)
    · simp [h.1]
    · simp [h.1]
  case covered => exact fun t ht => (hstat t).elim (fun h => hs.covered t (h ▸ ht)) And.left
  case roots =>
    intro k' t hk ht
    by_cases hfin : status t = .finished
    · exact .inr (.inr hfin)
    rcases hs.roots k' t hk ht with ⟨j, hj⟩ | h | h
    · by_cases hji : j = i
      · subst hji
        exact (hroots t hj).imp (fun h => ⟨j, by simpa using h⟩)
          fun h => .inl ⟨j, by simpa using h⟩
      · exact .inl ⟨j, by simpa [hji] using hj⟩
    · exact .inr (.inl (hcalled t hfin h))
    · rcases hstat t with h' | ⟨-, h' | h'⟩
      · exact absurd (h'.trans h) hfin
      · cases h'.2.1.symm.trans h
      · exact absurd h'.1 hfin

lemma Executing.visited_rest {t d : T} {roots remaining : List T} {frames : List (Frame T)}
    (hs : Executing G stageRootTasks ⟨s, k⟩)
    (hi : s.workers i = ⟨roots, ⟨t, d :: remaining⟩ :: frames, .running⟩)
    (hd : status d ≠ .notStarted) :
    ∀ f ∈ (⟨t, remaining⟩ :: frames : List (Frame T)), ∀ d' ∈ G.dependent f.task,
      d' ∈ f.remaining ∨ s.status d' ≠ .notStarted ∨ status d' ≠ .notStarted := by
  have hvis := hs.visited i
  simp only [hi, forall_mem_cons] at hvis ⊢
  refine ⟨fun d' hd' => ?_, fun f hf d' hd' => (hvis.2 f hf d' hd').imp_right .inl⟩
  rcases hvis.1 d' hd' with hmem | hd'
  · rcases mem_cons.1 hmem with rfl | hmem
    · exact .inr (.inr hd)
    · exact .inl hmem
  · exact .inr (.inl hd')

/-- A step of a worker that does not throw. -/
lemma Executing.step [DecidableEq T]
    (hroots : ∀ k ts, stageRootTasks[k]? = some ts → G.IsRootList k ts)
    (hemits : ∀ k t, G.Covered stageRootTasks k t → G.emitsResult t)
    (honce : ExecutedOnce G stageRootTasks ⟨s, k⟩) (hs : Executing G stageRootTasks ⟨s, k⟩)
    {s' : State (Fin maxNumWorkers) T} (h : Step G false i s s') :
    (∃ j e, (s'.workers j).control = .throwing e) ∨ Executing G stageRootTasks ⟨s', k⟩ := by
  obtain ⟨w, stores, enters, hstep, rfl⟩ := h
  have hcov : ∀ f ∈ (s.workers i).frames,
      G.Covered stageRootTasks (G.stageId f.task) f.task ∧ G.stageId f.task < k := by
    intro f hf
    obtain ⟨k', rfl, hf⟩ := honce.covered i f hf
    rw [hf.stageId hroots]
    exact ⟨hf, Nat.lt_succ_self k'⟩
  have hlink := honce.linked i
  have hrun := hs.running i
  generalize hi : s.workers i = w₀ at hstep hcov hlink hrun
  have hsame : Executing G stageRootTasks
      ⟨⟨s.status, update s.workers i w₀, s.entered⟩, k⟩ := by
    rw [← hi, update_eq_self]
    exact hs
  cases hstep with
  | start =>
    refine .inr (hs.replace rfl ?_ (fun _ => .inl rfl) (by simp [hi])
      (by simp +contextual [hi, Worker.Calls]))
    simpa using fun d hd => .inl hd
  | @claim roots t d remaining frames hstat hstage =>
    obtain ⟨⟨r, hr, hrt⟩, hlt⟩ := hcov _ mem_cons_self
    have hd : d ∈ G.dependent t := hlink.remaining _ mem_cons_self d mem_cons_self
    refine .inr (hs.replace rfl (forall_mem_cons.2 ⟨fun _ => .inl, ?_⟩) (fun u => ?_)
      (by simp +contextual [hi, Worker.Calls]) (by simp +contextual [hi]))
    · exact hs.visited_rest hi (by simp)
    · by_cases hud : u = d
      · subst hud
        rw [hstage]
        exact .inr ⟨⟨⟨r, hr, hrt.tail ⟨hd, hstage⟩⟩, hlt⟩, .inl ⟨by simp, hstat, _, mem_cons_self,
          rfl⟩⟩
      · exact .inl (by simp [hud])
  | claimPrevious _ _ h => cases h
  | wait => exact .inr hsame
  | stopped => exact .inr hsame
  | ready hstat =>
    exact .inr (hs.replace rfl (hs.visited_rest hi (by simp [hstat])) (fun _ => .inl rfl)
      (by simp +contextual [hi, Worker.Calls]) (by simp +contextual [hi]))
  | @executed roots t frames =>
    have ht := hcov _ mem_cons_self
    rw [if_pos (hemits _ t ht.1)]
    have hvis := hs.visited i
    simp only [hi, forall_mem_cons] at hvis
    refine .inr (hs.replace rfl (fun f hf d hd => (hvis.2 f hf d hd).imp_right .inl)
      (fun u => ?_) (fun u hu => ?_) (by simp +contextual [hi]))
    · by_cases hut : u = t
      · subst hut
        refine .inr ⟨ht, .inr ⟨by simp, fun d hd => ?_⟩⟩
        exact (hvis.1 d hd).resolve_left not_mem_nil
      · exact .inl (by simp [hut])
    · by_cases hut : u = t
      · exact .inr (by simp [hut])
      · exact .inl (by simpa [hi, Worker.Calls, Ne.symm hut] using hu)
  | migrated | migrationThrows => cases hrun
  | unwind | unwindRoot => cases hrun
  | previousNotExecuted | later | dependentFailed | executeThrows =>
    exact .inl ⟨i, _, congrArg Worker.control (update_self i _ s.workers)⟩

/-- When all workers are done, all tasks of the stage are finished. -/
lemma Executing.finished_of_covered (hs : Executing G stageRootTasks ⟨s, k + 1⟩)
    (hfin : ∀ i, (s.workers i).Finished) {t : T} (ht : G.Covered stageRootTasks k t) :
    s.status t = .finished := by
  have hframes : ∀ u, ¬ ∃ i, ∃ f ∈ (s.workers i).frames, f.task = u := by
    rintro u ⟨i, f, hf, -⟩
    rw [(hfin i).2.1] at hf
    cases hf
  obtain ⟨r, hr, hrt⟩ := ht
  induction hrt with
  | refl =>
    rcases hs.roots k r rfl hr with ⟨i, hi⟩ | h | h
    · rw [(hfin i).1] at hi
      cases hi
    · exact absurd h (hframes r)
    · exact h
  | @tail t d _ hd ih =>
    have hne := hs.finished t ih d hd.1
    have hnotFailed := hs.not_failed d
    cases hstat : s.status d with
    | notStarted => exact absurd hstat hne
    | inProgress => exact absurd (hs.inProgress d hstat) (hframes d)
    | finished => rfl
    | failed => exact absurd hstat hnotFailed

lemma Executing.startStage (hpos : 0 < maxNumWorkers) (hs : Executing G stageRootTasks ⟨s, k⟩)
    (hfin : ∀ i, (s.workers i).Finished) {rootTasks : List T}
    (hroots : stageRootTasks[k]? = some rootTasks) :
    Executing G stageRootTasks ⟨s.startStage (fun _ => true) rootTasks, k + 1⟩ where
  running _ := rfl
  visited := by simp
  finished := hs.finished
  inProgress t ht := by
    obtain ⟨i, f, hf, -⟩ := hs.inProgress t ht
    simp only [(hfin i).2.1] at hf
    cases hf
  not_failed := hs.not_failed
  covered t ht := ⟨(hs.covered t ht).1, Nat.lt_succ_of_lt (hs.covered t ht).2⟩
  roots k' r hk hr := by
    obtain rfl : k = k' := Nat.succ_injective hk
    obtain ⟨ts, hts, hmem⟩ := hr
    cases hroots.symm.trans hts
    have hnum : 0 < min maxNumWorkers rootTasks.length :=
      lt_min hpos (length_pos_of_mem hmem)
    obtain ⟨i, hi, hri⟩ := exists_mem_workerTasks hmem hnum
    refine .inl ⟨⟨i, hi.trans_le (min_le_left _ _)⟩, ?_⟩
    simpa using hri

end

/-! ### Runs -/

section

/-- What a run in a single process keeps. -/
structure StageInvariant (G : Tasks T) (stageRootTasks : List (List T))
    (p : Process maxNumWorkers T) : Prop where
  once : ExecutedOnce G stageRootTasks p
  not_migrating : ∀ i d, (p.state.workers i).control ≠ .migrating d
  earlier : ∀ j t, j + 1 < p.started → G.Covered stageRootTasks j t → p.state.status t ≠ .notStarted
  executing : (∃ i e, (p.state.workers i).control = .throwing e) ∨ Executing G stageRootTasks p

variable {status : T → Status} {w w' : Worker T} {stores : Option (T × Status)} {enters : Option T}

lemma WorkerStep.throwing {multiProcess : Bool}
    (h : WorkerStep G multiProcess status w w' stores enters) {e : Exception}
    (he : w.control = .throwing e) : w'.control = .throwing e := by
  cases h with
  | stopped | unwind | unwindRoot => exact he
  | _ => cases he

lemma WorkerStep.not_migrating (h : WorkerStep G false status w w' stores enters)
    (hw : ∀ d, w.control ≠ .migrating d) (d : T) : w'.control ≠ .migrating d := by
  cases h with
  | claimPrevious _ _ h => cases h
  | stopped => exact hw d
  | _ => simp

/-- A stage error is thrown for a task of another stage that is not started. -/
lemma WorkerStep.stageError (h : WorkerStep G false status w w' stores enters) (hw : w.Linked G)
    {e : Exception} (he : w'.control = .throwing e) (hstage : e.isStageError) :
    w.control = .throwing e ∨ ∃ f ∈ w.frames, ∃ d ∈ G.dependent f.task,
      status d = .notStarted ∧ G.stageId d ≠ G.stageId f.task := by
  cases h with
  | @previousNotExecuted roots t d remaining frames hstat hlt =>
    have hd := hw.remaining _ mem_cons_self d mem_cons_self
    exact .inr ⟨_, mem_cons_self, d, hd, hstat, hlt.ne⟩
  | @later roots t d remaining frames hstat hlt =>
    have hd := hw.remaining _ mem_cons_self d mem_cons_self
    exact .inr ⟨_, mem_cons_self, d, hd, hstat, hlt.ne'⟩
  | dependentFailed | migrationThrows | executeThrows => cases he; cases hstage
  | unwind | unwindRoot | stopped => exact .inl he
  | _ => cases he

variable [DecidableEq T] {p : Process maxNumWorkers T}

section

variable (hpos : 0 < maxNumWorkers)
  (hroots : ∀ k ts, stageRootTasks[k]? = some ts → G.IsRootList k ts)
  (hemits : ∀ k t, G.Covered stageRootTasks k t → G.emitsResult t)
include hpos hroots hemits

lemma Process.Runs.stageInvariant
    (h : Process.Runs G false (fun _ => true) stageRootTasks .initial p) :
    StageInvariant G stageRootTasks p := by
  induction h with
  | refl =>
    exact ⟨executedOnce_initial, fun i d => by simp,
      fun j t hj => by simp at hj, .inr executing_initial⟩
  | tail hruns hstep ih =>
    have honce := executedOnce hroots (hruns.tail hstep)
    cases hstep with
    | @worker s s' i k hstep =>
      have hexec : (∃ j e, (s'.workers j).control = .throwing e) ∨
          Executing G stageRootTasks ⟨s', k⟩ := by
        rcases ih.executing with ⟨j, e, he⟩ | hexec
        · obtain ⟨w, stores, enters, hstep, rfl⟩ := hstep
          exact .inl (exists_update (P := fun w => ∃ e, w.control = .throwing e)
            (Exists.imp fun _ he => hstep.throwing he) ⟨j, e, he⟩)
        · exact hexec.step hroots hemits ih.once hstep
      obtain ⟨w, stores, enters, hstep, rfl⟩ := hstep
      refine ⟨honce, ?_, fun j t hj ht => hstep.store_ne_notStarted (ih.earlier j t hj ht), hexec⟩
      exact forall_update (P := fun w => ∀ d, w.control ≠ .migrating d)
        (hstep.not_migrating (ih.not_migrating i)) ih.not_migrating
    | @nextStage s k rootTasks hfin hrootTasks =>
      have hexec : Executing G stageRootTasks ⟨s, k⟩ := by
        refine ih.executing.resolve_left ?_
        rintro ⟨i, e, he⟩
        simp only [(hfin i).2.2] at he
        cases he
      refine ⟨honce, fun i d => by simp, fun j t hj ht => ?_,
        .inr (hexec.startStage hpos hfin hrootTasks)⟩
      rcases Nat.lt_succ_iff_lt_or_eq.1 hj with hj | rfl
      · exact ih.earlier j t hj ht
      · simp [hexec.finished_of_covered hfin ht]

/-- If the tasks of each stage depend only on tasks that are executed by then, no run raises a stage
error. -/
theorem not_raisesStageError_of_isOrdered (hord : G.IsOrdered stageRootTasks)
    (h : Process.Runs G false (fun _ => true) stageRootTasks .initial p) :
    ¬ p.RaisesStageError := by
  induction h with
  | refl => simp
  | tail hruns hstep ih =>
    have hp := Process.Runs.stageInvariant hpos hroots hemits hruns
    cases hstep with
    | @worker s s' i k hstep =>
      obtain ⟨w, stores, enters, hstep, rfl⟩ := hstep
      rintro ⟨j, e, he, hstage⟩
      by_cases hj : j = i
      · subst hj
        simp only [update_self] at he
        rcases hstep.stageError (hp.once.linked j) he hstage with he | ⟨f, hf, d, hd, hstat, hne⟩
        · exact ih ⟨j, e, he, hstage⟩
        · obtain ⟨k', rfl, hcov⟩ := hp.once.covered j f hf
          obtain ⟨hle, hdcovered⟩ := hord k' f.task hcov d hd
          rw [hcov.stageId hroots] at hne
          exact hp.earlier _ d (Nat.succ_lt_succ (lt_of_le_of_ne hle hne)) hdcovered hstat
      · refine ih ⟨j, e, ?_, hstage⟩
        simpa [hj] using he
    | nextStage => simp

end

/-! ### A run that finds every wrong order -/

/-- A task is not started or finished. -/
def Settled (x : Status) : Prop := x = .notStarted ∨ x = .finished

lemma Settled.of_change {α : Type*} {status status' : α → Status} {u : α} (h : Settled (status u))
    (hchange : status' u = status u ∨ status' u = .finished) : Settled (status' u) := by
  rcases hchange with hu | hu
  · rw [hu]
    exact h
  · exact .inr hu

variable {k : Nat} {rs : List T} {frames : List (Frame T)} {status : T → Status} {entered : List T}
  (hemits : ∀ k t, G.Covered stageRootTasks k t → G.emitsResult t)
  (hsafe : ∀ p : Process 1 T, Process.Runs G false (fun _ => true) stageRootTasks .initial p →
    ¬ p.RaisesStageError)

include hemits hsafe

/-- If no stage error can be raised, a single worker gets through the call of a task. -/
lemma exists_runs_call (t : T) (ht : G.Covered stageRootTasks k t) (remaining : List T)
    (hrem : ∀ d ∈ remaining, d ∈ G.dependent t)
    (hruns : Process.Runs G false (fun _ => true) stageRootTasks .initial
      (⟨⟨status, fun _ => ⟨rs, ⟨t, remaining⟩ :: frames, .running⟩, entered⟩, k + 1⟩ : Process 1 T))
    (hsettled : ∀ u, G.Below u t → Settled (status u)) :
    ∃ status' entered', Process.Runs G false (fun _ => true) stageRootTasks .initial
      (⟨⟨status', fun _ => ⟨rs, frames, .running⟩, entered'⟩, k + 1⟩ : Process 1 T) ∧
      status' t = .finished ∧ ∀ u, status' u = status u ∨ status' u = .finished := by
  induction t using G.wellFounded_below.induction generalizing remaining status frames entered with
  | h t ih =>
  induction remaining generalizing status entered with
  | nil =>
    refine ⟨_, _, hruns.tail (.single .executed), ?_, fun u => ?_⟩
    · simp [hemits k t ht]
    · simp only [hemits k t ht, if_true, store, update_apply]
      split
      · exact .inr rfl
      · exact .inl rfl
  | cons d remaining ihRemaining =>
    have hd : d ∈ G.dependent t := hrem d mem_cons_self
    have hrest : ∀ d' ∈ remaining, d' ∈ G.dependent t :=
      fun d' hd' => hrem d' (mem_cons_of_mem _ hd')
    rcases hsettled d (.single hd) with hstat | hstat
    · rcases lt_trichotomy (G.stageId d) (G.stageId t) with hlt | heq | hlt
      · refine absurd ?_ (hsafe _ (hruns.tail (.single (.previousNotExecuted hstat hlt rfl))))
        exact ⟨0, _, rfl, rfl⟩
      · obtain ⟨r, hr, hrt⟩ := ht
        have hclaimed := hruns.tail (.single (.claim hstat heq))
        have hne : ∀ u, G.Below u d → u ≠ d := by
          rintro u hu rfl
          exact G.wellFounded_below.irrefl.irrefl u hu
        obtain ⟨status₁, entered₁, hruns₁, hd₁, hchange₁⟩ :=
          ih d (.single hd) ⟨r, hr, hrt.tail ⟨hd, heq⟩⟩ _ (fun _ h => h) hclaimed fun u hu => by
            simpa [hne u hu] using hsettled u (hu.tail hd)
        have hchange : ∀ u, status₁ u = status u ∨ status₁ u = .finished := by
          intro u
          by_cases hud : u = d
          · exact .inr (hud ▸ hd₁)
          · simpa [hud] using hchange₁ u
        obtain ⟨status₂, entered₂, hruns₂, ht₂, hchange₂⟩ := ihRemaining hrest hruns₁
          fun u hu => (hsettled u hu).of_change (hchange u)
        refine ⟨status₂, entered₂, hruns₂, ht₂, fun u => ?_⟩
        rcases hchange₂ u with hu | hu
        · exact (hchange u).imp hu.trans hu.trans
        · exact .inr hu
      · exact absurd ⟨0, _, rfl, rfl⟩ (hsafe _ (hruns.tail (.single (.later hstat hlt))))
    · exact ihRemaining hrest (hruns.tail (.single (.ready hstat))) hsettled

/-- A single worker gets through its root tasks. -/
lemma exists_runs_roots (hrs : ∀ r ∈ rs, IsRoot stageRootTasks k r)
    (hruns : Process.Runs G false (fun _ => true) stageRootTasks .initial
      (⟨⟨status, fun _ => ⟨rs, [], .running⟩, entered⟩, k + 1⟩ : Process 1 T))
    (hsettled : ∀ u, Settled (status u)) :
    ∃ status' entered', Process.Runs G false (fun _ => true) stageRootTasks .initial
      (⟨⟨status', fun _ => .idle, entered'⟩, k + 1⟩ : Process 1 T) ∧ ∀ u, Settled (status' u) := by
  induction rs generalizing status entered with
  | nil => exact ⟨status, entered, hruns, hsettled⟩
  | cons r rs ih =>
    have hr : G.Covered stageRootTasks k r := ⟨r, hrs r mem_cons_self, .refl⟩
    obtain ⟨status', entered', hruns', -, hchange⟩ := exists_runs_call hemits hsafe r hr _
      (fun _ h => h) (hruns.tail (.single .start)) fun u _ => hsettled u
    exact ih (fun r' hr' => hrs r' (mem_cons_of_mem _ hr')) hruns'
      fun u => (hsettled u).of_change (hchange u)

lemma exists_runs_stages (hk : k ≤ stageRootTasks.length) :
    ∃ status entered, Process.Runs G false (fun _ => true) stageRootTasks .initial
      (⟨⟨status, fun _ => .idle, entered⟩, k⟩ : Process 1 T) ∧ ∀ u, Settled (status u) := by
  induction k with
  | zero => exact ⟨_, _, .refl, fun u => .inl rfl⟩
  | succ k ih =>
    obtain ⟨status, entered, hruns, hsettled⟩ := ih (Nat.le_of_succ_le hk)
    have hts : stageRootTasks[k]? = some stageRootTasks[k] := List.getElem?_eq_getElem hk
    refine exists_runs_roots hemits hsafe (fun r hr => ?_)
      (hruns.tail (.nextStage_single hts rfl)) hsettled
    have hmem := (workerTasks_sublist _ _ _).subset hr
    exact ⟨_, hts, mem_of_mem_filter hmem⟩

/-- If no run of a single worker raises a stage error, the tasks of each stage depend only on tasks
that are executed by then. -/
theorem isOrdered_of_not_raisesStageError
    (hroots : ∀ k ts, stageRootTasks[k]? = some ts → G.IsRootList k ts) :
    G.IsOrdered stageRootTasks := by
  intro k t ht d hd
  have hk : k < stageRootTasks.length := by
    obtain ⟨r, ⟨ts, hts, -⟩, -⟩ := ht
    exact (List.getElem?_eq_some_iff.1 hts).1
  obtain ⟨status, entered, hruns, -⟩ := exists_runs_stages hemits hsafe hk
  have hexec := (Process.Runs.stageInvariant Nat.one_pos hroots hemits hruns).executing
  rcases hexec with ⟨i, e, he⟩ | hexec
  · cases he
  have hfin := hexec.finished_of_covered (fun _ => ⟨rfl, rfl, rfl⟩) ht
  obtain ⟨hcov, hlt⟩ := hexec.covered d (hexec.finished t hfin d hd)
  exact ⟨Nat.le_of_lt_succ hlt, hcov⟩

end

end Gqe.Executor
