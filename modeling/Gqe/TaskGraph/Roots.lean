import Gqe.Executor.Stages
import Gqe.TaskGraph.Visits

/-!
# Root tasks

The root tasks of a stage belong to this stage, there are no two of them that are the same task, and
none of them is needed by another one. The workers of a stage execute the root tasks without
claiming them, and this is why they may.
-/

namespace Gqe.TaskGraph

open Builder Fallible Relation List

/-! ### Dependencies -/

namespace Task

/-- A task prepares another one. -/
abbrev DependsOn : Task → Task → Prop := tasks.DependsOn

/-- A task is prepared on the way to another one, or is this task. -/
abbrev Reaches : Task → Task → Prop := ReflTransGen DependsOn

lemma Reaches.cases {t u : Task} (h : t.Reaches u) : t = u ∨ ∃ d ∈ t.dependent, d.Reaches u :=
  (ReflTransGen.cases_head_iff.1 h).imp_right fun ⟨d, hd, hdu⟩ => ⟨d, hd, hdu⟩

lemma exists_reaches_of_transGen {t u : Task} (h : TransGen DependsOn t u) :
    ∃ d ∈ t.dependent, d.Reaches u := by
  obtain ⟨d, hd, hdu⟩ := TransGen.head'_iff.1 h
  exact ⟨d, hd, hdu⟩

end Task

/-! ### The invariant of the builder -/

/-- A task and all the tasks that it needs were generated by the builder. -/
def Known (b : Builder) (t : Task) : Prop :=
  ∀ u, t.Reaches u → u.taskId < b.currentTaskId ∧ u.stageId ≤ b.currentStageId

/-- The tasks of a list were generated by the builder, and those of the current stage may become
its root tasks. -/
structure Handed (b : Builder) (ts : List Task) : Prop where
  known : ∀ t ∈ ts, Known b t
  roots : tasks.IsRootList b.currentStageId (ts.filter (·.stageId = b.currentStageId))

/-- The builder has filled the root tasks of the stages before the current one. -/
structure Sound (b : Builder) : Prop where
  length : b.stageRootTasks.length = b.currentStageId
  roots : ∀ k ts, b.stageRootTasks[k]? = some ts → tasks.IsRootList k ts
  cached : ∀ id ts, b.tasksCache id = some ts → Handed b ts

/-- The ids and stages that a builder has used are used later. -/
structure Before (b b' : Builder) : Prop where
  taskId : b.currentTaskId ≤ b'.currentTaskId
  stageId : b.currentStageId ≤ b'.currentStageId

variable {b b₁ b₂ b' : Builder} {t : Task} {ts us : List Task} {n : Nat}

lemma Before.refl (b : Builder) : Before b b := ⟨le_rfl, le_rfl⟩

lemma Before.trans (h : Before b b₁) (h' : Before b₁ b₂) : Before b b₂ :=
  ⟨h.taskId.trans h'.taskId, h.stageId.trans h'.stageId⟩

/-- What a later part of a run gives, the whole run gives. -/
lemma Before.and {P Q : Prop} (h : Before b b₁) (h' : P ∧ Q ∧ Before b₁ b') : P ∧ Q ∧ Before b b' :=
  ⟨h'.1, h'.2.1, h.trans h'.2.2⟩

lemma before_skip : Before b (b.skip n) := ⟨Nat.le_add_right _ _, le_rfl⟩

lemma before_breaker : Before b (b.insertPipelineBreaker ts) :=
  ⟨le_rfl, Nat.le_succ _⟩

lemma Known.mono (h : Known b t) (hb : Before b b') : Known b' t := by
  intro u hu
  obtain ⟨hid, hstage⟩ := h u hu
  exact ⟨hid.trans_le hb.taskId, hstage.trans hb.stageId⟩

lemma known_of_dependent (hid : t.taskId < b.currentTaskId) (hstage : t.stageId ≤ b.currentStageId)
    (h : ∀ d ∈ t.dependent, Known b d) : Known b t := by
  intro u hu
  rcases hu.cases with rfl | ⟨d, hd, hdu⟩
  · exact ⟨hid, hstage⟩
  · exact h d hd u hdu

lemma Known.stageId_le (h : Known b t) : t.stageId ≤ b.currentStageId := (h t .refl).2

/-! ### Steps of the builder -/

lemma Handed.skip (h : Handed b ts) : Handed (b.skip n) ts :=
  ⟨fun t ht => (h.known t ht).mono before_skip, h.roots⟩

lemma Sound.skip (h : Sound b) : Sound (b.skip n) :=
  ⟨h.length, h.roots, fun id ts hts => (h.cached id ts hts).skip⟩

/-- In a new stage no task that is known may become a root task. -/
lemma Handed.insertPipelineBreaker (h : Handed b ts) : Handed (b.insertPipelineBreaker us) ts := by
  refine ⟨fun t ht => (h.known t ht).mono before_breaker, ?_⟩
  have hnil : ts.filter (·.stageId = b.currentStageId + 1) = [] := by
    refine filter_eq_nil_iff.2 fun t ht => ?_
    have := (h.known t ht).stageId_le
    simp only [decide_eq_true_eq]
    omega
  show tasks.IsRootList (b.currentStageId + 1) (ts.filter (·.stageId = b.currentStageId + 1))
  rw [hnil]
  exact ⟨by simp, by simp, by simp⟩

lemma Sound.insertPipelineBreaker (h : Sound b) (hts : Handed b ts) :
    Sound (b.insertPipelineBreaker ts) := by
  refine ⟨by simp [h.length], fun k us hus => ?_,
    fun id us hus => (h.cached id us hus).insertPipelineBreaker⟩
  simp only [Builder.insertPipelineBreaker, List.getElem?_append, h.length] at hus
  split at hus
  · exact h.roots k us hus
  · obtain ⟨hk, rfl⟩ := List.getElem?_eq_some_iff.1 hus
    simp only [length_singleton] at hk
    obtain rfl : k = b.currentStageId := by omega
    simpa using hts.roots

lemma Handed.updateCache {id : Nat} (h : Handed b ts) : Handed (b.updateCache id us) ts :=
  ⟨h.known, h.roots⟩

lemma Sound.updateCache {id : Nat} (h : Sound b) (hts : Handed b ts) :
    Sound (b.updateCache id ts) := by
  refine ⟨h.length, h.roots, fun id' us hus => ?_⟩
  simp only [Builder.updateCache, Function.update_apply] at hus
  split at hus
  · cases hus
    exact hts.updateCache
  · exact (h.cached id' us hus).updateCache

lemma handed_of_subset (h : ∀ t ∈ ts, Known b t) (hnd : ts.Nodup)
    (hindependent : ∀ t ∈ ts, ∀ u ∈ ts, ¬ TransGen Task.DependsOn t u) : Handed b ts := by
  refine ⟨h, by simp, hnd.filter _, fun t ht u hu => ?_⟩
  exact hindependent t (mem_of_mem_filter ht) u (mem_of_mem_filter hu)

variable {kind : TaskKind} {dependencies : List (List Task)}

/-- New tasks have larger ids than all tasks they need. -/
lemma handed_newTasks {subqueries : List Task} (hdeps : ∀ ds ∈ dependencies, ∀ d ∈ ds, Known b d)
    (hsubs : ∀ q ∈ subqueries, Known b q) (hn : dependencies.length ≤ n) :
    Handed (b.skip n) (b.newTasks kind subqueries dependencies).1 := by
  have hdependent : ∀ t ∈ (b.newTasks kind subqueries dependencies).1, ∀ d ∈ t.dependent,
      Known b d := by
    intro t ht d hd
    obtain ⟨-, -, -, -, ds, hds, hdep⟩ := mem_newTasks ht
    rw [hdep, mem_append] at hd
    exact hd.elim (hdeps ds hds d) (hsubs d)
  apply handed_of_subset
  · intro t ht
    obtain ⟨-, hlt, hstage, -⟩ := mem_newTasks ht
    refine known_of_dependent ?_ hstage.le fun d hd => (hdependent t ht d hd).mono before_skip
    simp only [skip_currentTaskId]
    omega
  · exact pairwise_newTasks.imp fun hlt heq => by simp [heq] at hlt
  · intro t ht u hu h
    obtain ⟨d, hd, hdu⟩ := Task.exists_reaches_of_transGen h
    exact absurd (hdependent t ht d hd u hdu).1 (mem_newTasks hu).1.not_gt

lemma handed_of_newTasks {subqueries : List Task}
    (h : b.newTasks kind subqueries dependencies = (ts, b'))
    (hb : Sound b) (hdeps : ∀ ds ∈ dependencies, ∀ d ∈ ds, Known b d)
    (hsubs : ∀ q ∈ subqueries, Known b q) : Sound b' ∧ Handed b' ts ∧ Before b b' := by
  obtain rfl : b' = b.skip dependencies.length := by rw [← newTasks_snd, h]
  obtain rfl : ts = (b.newTasks kind subqueries dependencies).1 := by rw [h]
  exact ⟨hb.skip, handed_newTasks hdeps hsubs le_rfl, before_skip⟩

lemma known_of_replicate : ∀ ds ∈ replicate n ([] : List Task), ∀ d ∈ ds, Known b d := by
  intro ds hds d hd
  rw [eq_of_mem_replicate hds] at hd
  cases hd

lemma known_of_singletons (h : ∀ t ∈ ts, Known b t) :
    ∀ ds ∈ ts.map (fun t => [t]), ∀ d ∈ ds, Known b d := by
  simpa using h

lemma handed_of_visitEach (h : visitEach kind us b = (ts, b')) (hb : Sound b)
    (hus : ∀ t ∈ us, Known b t) : Sound b' ∧ Handed b' ts ∧ Before b b' :=
  handed_of_newTasks h hb (known_of_singletons hus) (by simp)

lemma known_newTask (hts : ∀ t ∈ ts, Known b t) :
    Known (b.newTask kind ts).2 (b.newTask kind ts).1 := by
  refine known_of_dependent (Nat.lt_succ_self _) le_rfl fun d hd => ?_
  exact (hts d (by simpa [newTask] using hd)).mono before_skip

lemma known_of_concatenate {isPipelineBreaker : Bool}
    (h : b.concatenate ts isPipelineBreaker = (t, b')) (hb : Sound b) (hknown : ∀ t ∈ ts, Known b t)
    (hts : isPipelineBreaker = true → Handed b ts) : Sound b' ∧ Known b' t ∧ Before b b' := by
  rcases concatenate_cases ts isPipelineBreaker b with ⟨task, rfl, heq⟩ | ⟨-, heq⟩
  · cases heq.symm.trans h
    exact ⟨hb, hknown t (by simp), .refl b⟩
  · cases heq.symm.trans h
    cases isPipelineBreaker with
    | false => exact ⟨hb.skip, known_newTask hknown, before_skip⟩
    | true =>
      have hts := hts rfl
      exact ⟨(hb.insertPipelineBreaker hts).skip, known_newTask hts.insertPipelineBreaker.known,
        before_breaker.trans before_skip⟩

lemma handed_of_concatenated (h : visitConcatenated kind us b = (ts, b'))
    (hb : Sound b) (hus : Handed b us) : Sound b' ∧ Handed b' ts ∧ Before b b' := by
  rcases hc : b.concatenate us true with ⟨c, b₁⟩
  obtain ⟨hb₁, hc₁, hbefore⟩ := known_of_concatenate hc hb hus.known fun _ => hus
  simp only [visitConcatenated, hc] at h
  exact hbefore.and (handed_of_newTasks h hb₁ (by simpa using hc₁) (by simp))

lemma Handed.append (hknown : ∀ t ∈ ts, Known b t) (hus : Handed b us)
    (hstage : ∀ t ∈ ts, t.stageId < b.currentStageId) : Handed b (ts ++ us) := by
  have hnil : ts.filter (·.stageId = b.currentStageId) = [] := by
    refine filter_eq_nil_iff.2 fun t ht => ?_
    simpa using (hstage t ht).ne
  refine ⟨fun t ht => (mem_append.1 ht).elim (hknown t) (hus.known t), ?_⟩
  rw [filter_append, hnil]
  exact hus.roots

/-- A join task of a shuffle join needs the tasks of its sides and tasks that are no joins. -/
lemma handed_of_shuffleJoins {lefts rights : List Task} {partitions : List Nat}
    (h : shuffleJoinTasks lefts rights partitions b = .ok (ts, b')) (hb : Sound b)
    (hlefts : ∀ t ∈ lefts, Known b t) (hrights : ∀ t ∈ rights, Known b t) :
    Sound b' ∧ Handed b' ts ∧ Before b b' := by
  obtain ⟨⟨n, rfl⟩, -, hjoin, hpw⟩ := shuffleJoinTasks_spec h
  have hin : ∀ {side d}, (∀ t ∈ side, Known b t) → IsPartitionInput b (b.skip n) side d →
      Known b d ∨ d.kind ≠ .join ∧ Known (b.skip n) d ∧ ∀ u ∈ d.dependent, Known b u := by
    rintro side d hside (hd | ⟨hdep, hstage, ⟨idx, hkind⟩, -, hlt⟩)
    · exact Or.inl (hside d hd)
    · refine Or.inr ⟨by simp [hkind], known_of_dependent hlt hstage.le fun u hu => ?_, ?_⟩
      · exact (hside u (hdep ▸ hu)).mono before_skip
      · exact fun u hu => hside u (hdep ▸ hu)
  have hdependent : ∀ t ∈ ts, ∀ d ∈ t.dependent,
      Known b d ∨ d.kind ≠ .join ∧ Known (b.skip n) d ∧ ∀ u ∈ d.dependent, Known b u :=
    fun t ht d hd => ((hjoin t ht).dependent d hd).elim (hin hlefts) (hin hrights)
  refine ⟨hb.skip, handed_of_subset ?_ ?_ ?_, before_skip⟩
  · intro t ht
    refine known_of_dependent (hjoin t ht).taskId_lt (hjoin t ht).stageId.le fun d hd => ?_
    exact (hdependent t ht d hd).elim (·.mono before_skip) (·.2.1)
  · exact hpw.imp fun hlt heq => by simp [heq] at hlt
  · intro t ht u hu htu
    -- Another join task is too new to be needed by a task of a side, and it merges no partition.
    have hnew : ∀ d, Known b d → ¬ d.Reaches u := fun d hd hdu =>
      absurd (hd u hdu).1 (hjoin u hu).le_taskId.not_gt
    obtain ⟨d, hd, hdu⟩ := Task.exists_reaches_of_transGen htu
    rcases hdependent t ht d hd with hknown | ⟨hkind, -, hside⟩
    · exact hnew d hknown hdu
    · rcases hdu.cases with rfl | ⟨v, hv, hvu⟩
      · exact hkind (hjoin d hu).kind
      · exact hnew v (hside v hv) hvu

/-! ### The visits keep the invariant -/

variable {ctx : Context}

def KeepsSound (_ : PhysicalRelation) (b : Builder) (ts : List Task) (b' : Builder) : Prop :=
  Sound b → Sound b' ∧ Handed b' ts ∧ Before b b'

lemma known_of_positions {joins : List Task}
    (h : lateMaterializationDependencies ctx joins b = (ts, b')) (hb : Sound b)
    (hjs : Handed b joins) : Sound b' ∧ (∀ t ∈ ts, Known b' t) ∧ Before b b' := by
  simp only [lateMaterializationDependencies] at h
  split at h
  · rcases hext : b.newTasks .extractMarkJoinPositions []
      (replicate (min ctx.numRanks joins.length) []) with ⟨extracts, b₁⟩
    rw [hext] at h
    cases h
    obtain ⟨hb₁, hts, hbefore⟩ :=
      handed_of_newTasks hext hb known_of_replicate (by simp)
    exact ⟨hb₁.insertPipelineBreaker hts, hts.insertPipelineBreaker.known,
      hbefore.trans before_breaker⟩
  · cases h
    exact ⟨hb, hjs.known, .refl b⟩

/-- The join tasks of a broadcast join: each needs all tasks of one side and a task of the other. -/
lemma handed_of_broadcast {r : PhysicalRelation} {b₃ : Builder} {pair : Task → List Task}
    (hb : Sound b) (hts : Handed b ts) (hside : KeepsSound r (b.insertPipelineBreaker ts) us b₂)
    (hconc : b₂.concatenate ts false = (t, b₃)) (hpair : ∀ u, ∀ d ∈ pair u, d = u ∨ d = t)
    {joins : List Task} (hjs : b₃.newTasks .join [] (us.map pair) = (joins, b')) :
    Sound b' ∧ (Handed b' joins ∧ Known b' t) ∧ Before b b' := by
  obtain ⟨hb₂, hus, hbefore₂⟩ := hside (hb.insertPipelineBreaker hts)
  obtain ⟨hb₃, hconc, hbefore₃⟩ := known_of_concatenate hconc hb₂
    (fun t ht => (hts.insertPipelineBreaker.known t ht).mono hbefore₂) (by simp)
  have hdeps : ∀ ds ∈ us.map pair, ∀ d ∈ ds, Known b₃ d := by
    rintro _ hds d hd
    obtain ⟨u, hu, rfl⟩ := mem_map.1 hds
    rcases hpair u d hd with rfl | rfl
    · exact (hus.known d hu).mono hbefore₃
    · exact hconc
  obtain ⟨hb', hjs, hbefore⟩ := handed_of_newTasks hjs hb₃ hdeps (by simp)
  exact ⟨hb', ⟨hjs, hconc.mono hbefore⟩,
    before_breaker.trans (hbefore₂.trans (hbefore₃.trans hbefore))⟩

lemma Visits.keepsSound {r : PhysicalRelation} (h : Visits ctx KeepsSound r b ts b') :
    KeepsSound r b ts b' := by
  intro hb
  cases h with
  | read hview =>
    rename_i view
    exact ⟨hb.skip, handed_newTasks known_of_replicate (by simp) (by simpa using view.le),
      before_skip⟩
  | readIn hview hsub hq =>
    rename_i view subquery tasks b₁ q b₂
    obtain ⟨hb₁, htasks, hbefore₁⟩ := hsub hb
    obtain ⟨hb₂, hq, hbefore₂⟩ := known_of_concatenate hq hb₁ htasks.known fun _ => htasks
    exact (hbefore₁.trans hbefore₂).and ⟨hb₂.skip, handed_newTasks known_of_replicate
      (by simpa using hq) (by simpa using view.le), before_skip⟩
  | each hop hch htasks =>
    obtain ⟨hb₁, hins, hbefore₁⟩ := hch hb
    exact hbefore₁.and (handed_of_visitEach htasks hb₁ hins.known)
  | concatenated hop hch htasks =>
    obtain ⟨hb₁, hins, hbefore₁⟩ := hch hb
    exact hbefore₁.and (handed_of_concatenated htasks hb₁ hins)
  | aggregate hch hfsts hsnds htasks =>
    obtain ⟨hb₁, hins, hbefore₁⟩ := hch hb
    obtain ⟨hb₂, hfsts, hbefore₂⟩ := handed_of_visitEach hfsts hb₁ hins.known
    obtain ⟨hb₃, hsnds, hbefore₃⟩ := handed_of_concatenated hsnds hb₂ hfsts
    exact ((hbefore₁.trans hbefore₂).trans hbefore₃).and
      (handed_of_visitEach htasks hb₃ hsnds.known)
  | shuffle hch htasks =>
    obtain ⟨hb₁, hins, hbefore₁⟩ := hch hb
    obtain ⟨hb₂, hts, hbefore₂⟩ := handed_of_visitEach htasks hb₁ hins.known
    exact ⟨hb₂.insertPipelineBreaker hts, hts.insertPipelineBreaker,
      (hbefore₁.trans hbefore₂).trans before_breaker⟩
  | write hch =>
    obtain ⟨hb₁, hins, hbefore₁⟩ := hch hb
    refine ⟨hb₁.skip, handed_newTasks ?_ (by simp) (by simp), hbefore₁.trans before_skip⟩
    exact known_of_singletons fun t ht => hins.known t (mem_of_mem_take ht)
  | writeConcatenated hch hin =>
    obtain ⟨hb₁, hins, hbefore₁⟩ := hch hb
    obtain ⟨hb₂, hin, hbefore₂⟩ :=
      known_of_concatenate hin hb₁ hins.known fun _ => hins
    refine ⟨hb₂.skip, handed_newTasks ?_ (by simp) (by simp),
      (hbefore₁.trans hbefore₂).trans before_skip⟩
    refine known_of_singletons fun t ht => ?_
    obtain rfl := mem_singleton.1 (mem_of_mem_take ht)
    exact hin
  | broadcastRight hR hL hconc hjs =>
    obtain ⟨hb₁, hrights, hbefore₁⟩ := hR hb
    obtain ⟨hb', hts, hbefore⟩ := handed_of_broadcast hb₁ hrights hL hconc (by simp) hjs
    exact hbefore₁.and ⟨hb', hts.1, hbefore⟩
  | broadcastLeft hL hR hconc hjs =>
    obtain ⟨hb₁, hlefts, hbefore₁⟩ := hL hb
    obtain ⟨hb', hts, hbefore⟩ := handed_of_broadcast hb₁ hlefts hR hconc (by simp [or_comm]) hjs
    exact hbefore₁.and ⟨hb', hts.1, hbefore⟩
  | broadcastLeftPositions hjoinType hL hR hconc hjs hpositions htasks =>
    obtain ⟨hb₁, hlefts, hbefore₁⟩ := hL hb
    obtain ⟨hb₄, ⟨hjs, hconc⟩, hbefore₄⟩ :=
      handed_of_broadcast hb₁ hlefts hR hconc (by simp [or_comm]) hjs
    obtain ⟨hb₅, hpositions, hbefore₅⟩ := known_of_positions hpositions
      (hb₄.insertPipelineBreaker hjs) hjs.insertPipelineBreaker
    have hbefore₅ := before_breaker.trans hbefore₅
    exact ((hbefore₁.trans hbefore₄).trans hbefore₅).and (handed_of_newTasks htasks hb₅
      (by simpa using ⟨hconc.mono hbefore₅, hpositions⟩) (by simp))
  | shuffleJoin hL hR hvl hvr hjs =>
    obtain ⟨hb₁, hlefts, hbefore₁⟩ := hL hb
    obtain ⟨hb₂, hrights, hbefore₂⟩ := hR hb₁
    exact (hbefore₁.trans hbefore₂).and (handed_of_shuffleJoins hjs hb₂
      (fun t ht => (hlefts.known t ht).mono hbefore₂) hrights.known)
  | unionAll hL hR =>
    obtain ⟨hb₁, hlefts, hbefore₁⟩ := hL hb
    obtain ⟨hb₂, hrights, hbefore₂⟩ := hR (hb₁.insertPipelineBreaker hlefts)
    refine ⟨hb₂, .append ?_ hrights ?_, (hbefore₁.trans before_breaker).trans hbefore₂⟩
    · exact fun t ht => (hlefts.insertPipelineBreaker.known t ht).mono hbefore₂
    · intro t ht
      exact (Nat.lt_succ_of_le (hlefts.known t ht).stageId_le).trans_le hbefore₂.stageId

lemma sound_initial : Sound .initial := ⟨rfl, by simp [initial], by simp [initial]⟩

lemma generate_keepsSound (r : PhysicalRelation) (h : generateTasks ctx r b = .ok (ts, b')) :
    KeepsSound r b ts b' := by
  refine generate_induction (fun {r b ts} hcached hb => ?_) (fun {r b ts b'} _ hvisits hb => ?_)
    r h
  · exact ⟨hb, hb.cached _ _ hcached, .refl b⟩
  · obtain ⟨hb', hts, hbefore⟩ := hvisits.keepsSound hb
    exact ⟨hb'.updateCache hts, hts.updateCache, hbefore.taskId, hbefore.stageId⟩

/-- The root tasks of a stage belong to it, are different, and do not need each other. -/
theorem isRootList_of_build {rootRelation : PhysicalRelation} {stageRootTasks : List (List Task)}
    (h : build ctx rootRelation = .ok stageRootTasks) {k : Nat} {ts : List Task}
    (hts : stageRootTasks[k]? = some ts) : tasks.IsRootList k ts := by
  obtain ⟨⟨generated, b⟩, hgen, h⟩ := bind_eq_ok h
  cases h
  obtain ⟨hb, hgen, -⟩ := generate_keepsSound rootRelation hgen sound_initial
  exact (hb.insertPipelineBreaker hgen).roots k ts hts

/-! ### Every task is executed at most once -/

open Executor

/-- However the workers of a process interleave, `execute()` is entered at most once for each task
of the graph, and no workers wait for each other in a cycle. -/
theorem execute_entered_once {rootRelation : PhysicalRelation} {stageRootTasks : List (List Task)}
    (hbuild : build ctx rootRelation = .ok stageRootTasks) {multiProcess : Bool}
    {executeLocally : Task → Bool} {maxNumWorkers : Nat} {p : Process maxNumWorkers Task}
    (hruns : Process.Runs tasks multiProcess executeLocally stageRootTasks .initial p) :
    p.state.entered.Nodup ∧ ∀ i, ¬ TransGen p.state.Waits i i := by
  have honce : ExecutedOnce tasks stageRootTasks p :=
    hruns.executedOnce fun k ts hts => isRootList_of_build hbuild hts
  exact ⟨honce.nodup, State.not_transGen_waits honce.linked⟩

/-- Every table has one partition, and two partitions are shuffled. -/
def onePartition : Context where
  readableView _ := some ⟨1, 1, Nat.one_pos, Nat.le_refl 1⟩
  writeableView _ := none
  numShufflePartitions := 2
  joinUseMarkJoin := false
  numRanks := 1
  ordinal _ := 0
  numShufflePartitions_pos := by decide

/-- The table `t` has two partitions. -/
def twoPartitions : Context :=
  { onePartition with
    readableView := fun tableName =>
      if tableName = "t" then some ⟨2, 2, by decide, Nat.le_refl 2⟩
      else some ⟨1, 1, Nat.one_pos, Nat.le_refl 1⟩ }

/-- A read with a subquery, which both of its tasks need. -/
def sharedSubquery : PhysicalRelation := .readIn 1 "t" (.read 0 "u")

def subqueryTask : Task := .mk 0 0 .read [] []

def sharedSubqueryRead (taskId : Nat) : Task := .mk taskId 0 .read [] [subqueryTask]

/-- One worker claims the subquery, and the other one waits for it. -/
lemma runs_sharedSubquery : ∃ p : Process 2 Task,
    Process.Runs tasks false (fun _ => true) [[sharedSubqueryRead 1, sharedSubqueryRead 2]]
      .initial p ∧
    p.state.entered = [subqueryTask, sharedSubqueryRead 2, sharedSubqueryRead 1] ∧
    p.state.Waits 1 0 := by
  have hstage : Process.Runs tasks false (fun _ => true)
      [[sharedSubqueryRead 1, sharedSubqueryRead 2]] (.initial : Process 2 Task) _ :=
    .single (.nextStage (fun _ => ⟨rfl, rfl, rfl⟩) rfl)
  have hstart := hstage.tail (.worker (i := 0) ⟨_, _, _, .start, rfl⟩)
  have hstart' := hstart.tail (.worker (i := 1) ⟨_, _, _, .start, rfl⟩)
  have hclaim := hstart'.tail (.worker (i := 0) ⟨_, _, _, .claim rfl rfl, rfl⟩)
  exact ⟨_, hclaim, rfl, subqueryTask, ⟨rfl, rfl, _, _, _, rfl⟩, .inl (by simp [subqueryTask])⟩

theorem execute_entered_once_sharedSubquery :
    build twoPartitions sharedSubquery = .ok [[sharedSubqueryRead 1, sharedSubqueryRead 2]] ∧
    ∃ p : Process 2 Task, Process.Runs tasks false (fun _ => true)
        [[sharedSubqueryRead 1, sharedSubqueryRead 2]] .initial p ∧
      p.state.entered = [subqueryTask, sharedSubqueryRead 2, sharedSubqueryRead 1] ∧
      p.state.Waits 1 0 ∧ p.state.entered.Nodup ∧ ∀ i, ¬ TransGen p.state.Waits i i := by
  have hbuild : build twoPartitions sharedSubquery =
      .ok [[sharedSubqueryRead 1, sharedSubqueryRead 2]] := rfl
  obtain ⟨p, hruns, hentered, hwaits⟩ := runs_sharedSubquery
  exact ⟨hbuild, p, hruns, hentered, hwaits, execute_entered_once hbuild hruns⟩

end Gqe.TaskGraph
