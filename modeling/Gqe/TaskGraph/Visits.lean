import Gqe.Lib.Fallible
import Gqe.TaskGraph.Builder

/-!
# Visits

What a successful call of `generateTasks` did, by the relation that was visited, and the induction
that every property of the generated tasks goes by.
-/

namespace Gqe.TaskGraph

open Builder Fallible List Except

/-! ### Generated tasks -/

namespace Builder

variable {b : Builder} {kind : TaskKind} {subqueries : List Task} {dependencies : List (List Task)}

@[simp] lemma skip_stageRootTasks (n) : (b.skip n).stageRootTasks = b.stageRootTasks := rfl

@[simp] lemma skip_currentStageId (n) : (b.skip n).currentStageId = b.currentStageId := rfl

@[simp] lemma skip_currentTaskId (n) : (b.skip n).currentTaskId = b.currentTaskId + n := rfl

@[simp] lemma skip_tasksCache (n) : (b.skip n).tasksCache = b.tasksCache := rfl

lemma skip_skip (m n) : (b.skip m).skip n = b.skip (m + n) := by
  simp [skip, Nat.add_assoc]

lemma newTasks_snd : (b.newTasks kind subqueries dependencies).2 = b.skip dependencies.length := by
  induction dependencies generalizing b with
  | nil => rfl
  | cons ds rest ih =>
    simp only [newTasks, ih, skip_skip, length_cons]
    rw [Nat.add_comm]

lemma length_newTasks :
    (b.newTasks kind subqueries dependencies).1.length = dependencies.length := by
  induction dependencies generalizing b with
  | nil => rfl
  | cons ds rest ih => simp [newTasks, ih]

lemma length_of_newTasks {tasks : List Task} {b' : Builder}
    (h : b.newTasks kind subqueries dependencies = (tasks, b')) :
    tasks.length = dependencies.length := by
  rw [← length_newTasks, h]

/-- A new task has an id of its own, the current stage, and one of the lists of dependencies. -/
lemma mem_newTasks {t : Task} (h : t ∈ (b.newTasks kind subqueries dependencies).1) :
    b.currentTaskId ≤ t.taskId ∧ t.taskId < b.currentTaskId + dependencies.length ∧
      t.stageId = b.currentStageId ∧ t.kind = kind ∧
      ∃ ds ∈ dependencies, t.dependent = ds ++ subqueries := by
  induction dependencies generalizing b with
  | nil => simp [newTasks] at h
  | cons ds rest ih =>
    rcases mem_cons.1 h with rfl | h
    · simp
    · obtain ⟨hle, hlt, hstage, hkind, ds', hds', hdep⟩ := ih h
      simp only [skip_currentTaskId] at hle hlt hstage
      refine ⟨by omega, by simp only [length_cons]; omega, hstage, hkind, ds', ?_, hdep⟩
      exact mem_cons_of_mem _ hds'

lemma exists_mem_newTasks {ds : List Task} (h : ds ∈ dependencies) :
    ∃ t ∈ (b.newTasks kind subqueries dependencies).1,
      t.stageId = b.currentStageId ∧ t.dependent = ds ++ subqueries := by
  induction dependencies generalizing b with
  | nil => simp at h
  | cons ds' rest ih =>
    rcases mem_cons.1 h with rfl | h
    · exact ⟨_, mem_cons_self, rfl, rfl⟩
    · obtain ⟨t, ht, hstage, hdep⟩ := ih h
      exact ⟨t, mem_cons_of_mem _ ht, hstage, hdep⟩

lemma pairwise_newTasks :
    (b.newTasks kind subqueries dependencies).1.Pairwise fun t u => t.taskId < u.taskId := by
  induction dependencies generalizing b with
  | nil => exact List.Pairwise.nil
  | cons ds rest ih =>
    refine List.Pairwise.cons (fun u hu => ?_) ih
    have hle := (mem_newTasks hu).1
    exact Nat.lt_of_succ_le hle

/-- The two cases of `concatenate`. -/
lemma concatenate_cases (inputTasks : List Task) (isPipelineBreaker : Bool) (b : Builder) :
    (∃ task, inputTasks = [task] ∧ b.concatenate inputTasks isPipelineBreaker = (task, b)) ∨
    inputTasks.length ≠ 1 ∧ b.concatenate inputTasks isPipelineBreaker =
      (if isPipelineBreaker then b.insertPipelineBreaker inputTasks else b).newTask .concatenate
        inputTasks := by
  match inputTasks with
  | [] => exact Or.inr ⟨by simp, rfl⟩
  | [task] => exact Or.inl ⟨task, rfl, rfl⟩
  | _ :: _ :: _ => exact Or.inr ⟨by simp, rfl⟩

end Builder

lemma length_of_visitEach {kind : TaskKind} {inputTasks tasks : List Task} {b b' : Builder}
    (h : visitEach kind inputTasks b = (tasks, b')) : tasks.length = inputTasks.length :=
  (length_of_newTasks h).trans (length_map _)

/-! ### The tasks of a shuffle join -/

section ShuffleJoin

variable {b b' : Builder} {side leftTasks rightTasks : List Task}

/-- An input of a join task: a task of one side, or a new task that merges a partition of it. -/
def IsPartitionInput (b b' : Builder) (side : List Task) (d : Task) : Prop :=
  d ∈ side ∨ d.dependent = side ∧ d.stageId = b.currentStageId ∧
    (∃ partitionIdx, d.kind = .partitionMerge partitionIdx) ∧
    b.currentTaskId ≤ d.taskId ∧ d.taskId < b'.currentTaskId

/-- The input of a join task for a partition. -/
def IsInputOf (b : Builder) (side : List Task) (partitionIdx : Nat) (d : Task) : Prop :=
  if isPartitioned side then d.dependent = side ∧ d.stageId = b.currentStageId
  else side[partitionIdx]? = some d

variable {partitionIdx : Nat}

lemma partitionInput_eq_ok {d : Task} (h : partitionInput side partitionIdx b = .ok (d, b')) :
    (∃ n, b' = b.skip n) ∧ IsPartitionInput b b' side d ∧ IsInputOf b side partitionIdx d := by
  unfold partitionInput at h
  unfold IsInputOf
  split at h
  · cases h
    exact ⟨⟨1, rfl⟩, Or.inr ⟨by simp, rfl, ⟨_, rfl⟩, le_rfl, Nat.lt_succ_self _⟩, by simp [*]⟩
  · split at h
    · cases h
      exact ⟨⟨0, rfl⟩, Or.inl (mem_of_getElem? ‹_›), by simp [*]⟩
    · cases h

/-- What a join task of a shuffle join is made of. -/
structure IsShuffleJoinTask (b b' : Builder) (leftTasks rightTasks : List Task) (t : Task) :
    Prop where
  le_taskId : b.currentTaskId ≤ t.taskId
  taskId_lt : t.taskId < b'.currentTaskId
  stageId : t.stageId = b.currentStageId
  kind : t.kind = .join
  dependent : ∀ d ∈ t.dependent,
    IsPartitionInput b b' leftTasks d ∨ IsPartitionInput b b' rightTasks d

lemma IsPartitionInput.mono {b₁ b₂ : Builder} {n : Nat} {d : Task}
    (h : IsPartitionInput (b.skip n) b₁ side d) (hle : b₁.currentTaskId ≤ b₂.currentTaskId) :
    IsPartitionInput b b₂ side d := by
  refine h.imp_right fun ⟨hdep, hstage, hkind, hlo, hhi⟩ =>
    ⟨hdep, hstage, hkind, le_trans (Nat.le_add_right _ n) hlo, hhi.trans_le hle⟩

lemma IsShuffleJoinTask.mono {n : Nat} {t : Task}
    (h : IsShuffleJoinTask (b.skip n) b' leftTasks rightTasks t) :
    IsShuffleJoinTask b b' leftTasks rightTasks t where
  le_taskId := le_trans (Nat.le_add_right _ n) h.le_taskId
  taskId_lt := h.taskId_lt
  stageId := h.stageId
  kind := h.kind
  dependent d hd := (h.dependent d hd).imp (·.mono le_rfl) (·.mono le_rfl)

variable {tasks : List Task}

lemma shuffleJoinTasks_cons {rest : List Nat}
    (h : shuffleJoinTasks leftTasks rightTasks (partitionIdx :: rest) b = .ok (tasks, b')) :
    ∃ l r t m n joins, IsInputOf b leftTasks partitionIdx l ∧
      IsInputOf b rightTasks partitionIdx r ∧
      IsPartitionInput b (b.skip m) leftTasks l ∧ IsPartitionInput b (b.skip m) rightTasks r ∧
      m < n ∧ t = .mk (b.currentTaskId + m) b.currentStageId .join [l, r] [] ∧
      shuffleJoinTasks leftTasks rightTasks rest (b.skip n) = .ok (joins, b') ∧
      tasks = t :: joins := by
  obtain ⟨⟨l, b₁⟩, hl, h⟩ := bind_eq_ok h
  obtain ⟨⟨r, b₂⟩, hr, h⟩ := bind_eq_ok h
  obtain ⟨⟨joins, b₃⟩, hjs, h⟩ := bind_eq_ok h
  cases h
  obtain ⟨⟨i, rfl⟩, hl, hl'⟩ := partitionInput_eq_ok hl
  obtain ⟨⟨j, rfl⟩, hr, hr'⟩ := partitionInput_eq_ok hr
  refine ⟨l, r, _, i + j, i + j + 1, joins, hl', hr', ?_, ?_, Nat.lt_succ_self _, ?_, ?_, rfl⟩
  · exact IsPartitionInput.mono (n := 0) hl (by simp)
  · exact IsPartitionInput.mono hr (by simp [Nat.add_assoc])
  · simp [Nat.add_assoc]
  · simpa [skip_skip] using hjs

section

variable {partitions : List Nat}
  (h : shuffleJoinTasks leftTasks rightTasks partitions b = .ok (tasks, b'))
include h

lemma shuffleJoinTasks_spec :
    (∃ n, b' = b.skip n) ∧ tasks.length = partitions.length ∧
      (∀ t ∈ tasks, IsShuffleJoinTask b b' leftTasks rightTasks t) ∧
      tasks.Pairwise fun t u => t.taskId < u.taskId := by
  induction partitions generalizing b tasks with
  | nil =>
    cases h
    exact ⟨⟨0, rfl⟩, rfl, by simp, .nil⟩
  | cons partitionIdx rest ih =>
    obtain ⟨l, r, t, m, n, joins, -, -, hl, hr, hmn, rfl, hjs, rfl⟩ := shuffleJoinTasks_cons h
    obtain ⟨⟨k, rfl⟩, hlen, hspec, hpw⟩ := ih hjs
    have hm : (b.skip m).currentTaskId ≤ ((b.skip n).skip k).currentTaskId := by
      simp only [skip_currentTaskId]
      omega
    refine ⟨⟨n + k, skip_skip n k⟩, by simp [hlen], fun t ht => ?_, .cons (fun u hu => ?_) hpw⟩
    · rcases mem_cons.1 ht with rfl | ht
      · refine ⟨Nat.le_add_right _ _, ?_, rfl, rfl, ?_⟩
        · simp only [Task.taskId_mk, skip_currentTaskId]
          omega
        · intro d hd
          simp only [Task.dependent_mk, append_nil, mem_cons, not_mem_nil, or_false] at hd
          rcases hd with rfl | rfl
          · exact Or.inl (IsPartitionInput.mono (n := 0) hl hm)
          · exact Or.inr (IsPartitionInput.mono (n := 0) hr hm)
      · exact (hspec t ht).mono
    · have hle := (hspec u hu).le_taskId
      simp only [skip_currentTaskId, Task.taskId_mk] at hle ⊢
      omega

lemma mem_shuffleJoins (hmem : partitionIdx ∈ partitions) :
    ∃ t ∈ tasks, ∃ l ∈ t.dependent, ∃ r ∈ t.dependent,
      IsInputOf b leftTasks partitionIdx l ∧ IsInputOf b rightTasks partitionIdx r := by
  induction partitions generalizing b tasks with
  | nil => simp at hmem
  | cons i rest ih =>
    obtain ⟨l, r, t, m, n, joins, hl, hr, -, -, -, rfl, hjs, rfl⟩ := shuffleJoinTasks_cons h
    rcases mem_cons.1 hmem with rfl | hmem
    · exact ⟨_, mem_cons_self, l, by simp, r, by simp, hl, hr⟩
    · obtain ⟨t, ht, l, hl, r, hr, hlt, hrt⟩ := ih hjs hmem
      exact ⟨t, mem_cons_of_mem _ ht, l, hl, r, hr, hlt, hrt⟩

end

end ShuffleJoin

/-! ### Visits -/

/-- The relations that generate a task for each input task, with the kind of these tasks. -/
def UnaryRelation.eachKind : UnaryRelation → Option TaskKind
  | filter => some .filter
  | project => some .project
  | genIdentCol => some .genIdentCol
  | _ => none

/-- The relations that generate one task for all input tasks, with the kind of this task. -/
def UnaryRelation.concatenatedKind : UnaryRelation → Option TaskKind
  | concatenateSort => some .sort
  | window => some .window
  | fetch _ _ => some .fetch
  | _ => none

/-- A successful visit of a relation, where `G` is what is known of the generation of its children
and subqueries. -/
inductive Visits (ctx : Context)
    (G : PhysicalRelation → Builder → List Task → Builder → Prop) :
    PhysicalRelation → Builder → List Task → Builder → Prop
  | read {id tableName view b} (hview : ctx.readableView tableName = some view) :
    Visits ctx G (.read id tableName) b
      (b.newTasks .read [] (replicate view.numTasks [])).1 (b.skip view.npartitions)
  | readIn {id tableName view subquery b tasks b₁ q b₂}
    (hview : ctx.readableView tableName = some view) (hsubquery : G subquery b tasks b₁)
    (hq : b₁.concatenate tasks true = (q, b₂)) :
    Visits ctx G (.readIn id tableName subquery) b
      (b₂.newTasks .read [q] (replicate view.numTasks [])).1 (b₂.skip view.npartitions)
  | each {id op kind child b inputs b₁ tasks b'} (hop : op.eachKind = some kind)
    (hchild : G child b inputs b₁) (htasks : visitEach kind inputs b₁ = (tasks, b')) :
    Visits ctx G (.unary id op child) b tasks b'
  | concatenated {id op kind child b inputs b₁ tasks b'} (hop : op.concatenatedKind = some kind)
    (hchild : G child b inputs b₁) (htasks : visitConcatenated kind inputs b₁ = (tasks, b')) :
    Visits ctx G (.unary id op child) b tasks b'
  | aggregate {id values child b inputs b₁ firsts b₂ seconds b₃ tasks b'}
    (hchild : G child b inputs b₁) (hfirsts : visitEach .aggregate inputs b₁ = (firsts, b₂))
    (hseconds : visitConcatenated .aggregate firsts b₂ = (seconds, b₃))
    (htasks : visitEach .project seconds b₃ = (tasks, b')) :
    Visits ctx G (.unary id (.concatenateAggregate values) child) b tasks b'
  | shuffle {id child b inputs b₁ tasks b₂} (hchild : G child b inputs b₁)
    (htasks : visitEach .partition inputs b₁ = (tasks, b₂)) :
    Visits ctx G (.unary id .shuffle child) b tasks (b₂.insertPipelineBreaker tasks)
  | write {id tableName child b inputs b₁ numTasks} (hchild : G child b inputs b₁) :
    Visits ctx G (.unary id (.write tableName) child) b
      (visitEach .write (inputs.take numTasks) b₁).1 (b₁.skip inputs.length)
  | writeConcatenated {id tableName child b inputs b₁ input b₂ numTasks}
    (hchild : G child b inputs b₁) (hinput : b₁.concatenate inputs true = (input, b₂)) :
    Visits ctx G (.unary id (.write tableName) child) b
      (visitEach .write ([input].take numTasks) b₂).1 (b₂.skip 1)
  | broadcastRight {id joinType left right b rights b₁ lefts b₂ concatenated b₃ joins b'}
    (hright : G right b rights b₁) (hleft : G left (b₁.insertPipelineBreaker rights) lefts b₂)
    (hconcatenated : b₂.concatenate rights false = (concatenated, b₃))
    (hjoins : b₃.newTasks .join [] (lefts.map fun l => [l, concatenated]) = (joins, b')) :
    Visits ctx G (.binary id (.broadcastJoin joinType .right) left right) b joins b'
  | broadcastLeft {id left right b lefts b₁ rights b₂ concatenated b₃ joins b'}
    (hleft : G left b lefts b₁) (hright : G right (b₁.insertPipelineBreaker lefts) rights b₂)
    (hconcatenated : b₂.concatenate lefts false = (concatenated, b₃))
    (hjoins : b₃.newTasks .join [] (rights.map fun r => [concatenated, r]) = (joins, b')) :
    Visits ctx G (.binary id (.broadcastJoin .inner .left) left right) b joins b'
  | broadcastLeftPositions {id joinType left right b lefts b₁ rights b₂ concatenated b₃ joins b₄
      positionLists b₅ tasks b'}
    (hjoinType : joinType = .leftSemi ∨ joinType = .leftAnti)
    (hleft : G left b lefts b₁) (hright : G right (b₁.insertPipelineBreaker lefts) rights b₂)
    (hconcatenated : b₂.concatenate lefts false = (concatenated, b₃))
    (hjoins : b₃.newTasks .join [] (rights.map fun r => [concatenated, r]) = (joins, b₄))
    (hpositions : lateMaterializationDependencies ctx joins (b₄.insertPipelineBreaker joins) =
      (positionLists, b₅))
    (htasks : b₅.newTasks .materializeJoinFromPositionLists [] [concatenated :: positionLists] =
      (tasks, b')) :
    Visits ctx G (.binary id (.broadcastJoin joinType .left) left right) b tasks b'
  | shuffleJoin {id joinType left right b lefts b₁ rights b₂ joins b₃}
    (hleft : G left b lefts b₁) (hright : G right b₁ rights b₂)
    (hvalidLeft : isValidInput ctx lefts) (hvalidRight : isValidInput ctx rights)
    (hjoins : shuffleJoinTasks lefts rights (range ctx.numShufflePartitions) b₂ =
      .ok (joins, b₃)) :
    Visits ctx G (.binary id (.shuffleJoin joinType) left right) b joins b₃
  | unionAll {id left right b lefts b₁ rights b₂} (hleft : G left b lefts b₁)
    (hright : G right (b₁.insertPipelineBreaker lefts) rights b₂) :
    Visits ctx G (.binary id .unionAll left right) b (lefts ++ rights) b₂

section Inversion

variable {ctx : Context} {G : PhysicalRelation → Builder → List Task → Builder → Prop}

/-- `G` is what is known of a generator. -/
def Describes (G : PhysicalRelation → Builder → List Task → Builder → Prop) (r : PhysicalRelation)
    (generate : Generator) : Prop :=
  ∀ {b tasks b'}, generate b = .ok (tasks, b') → G r b tasks b'

lemma readTasks_eq_ok {tableName : String} {subqueries : List Task} {b b' : Builder}
    {tasks : List Task} (h : readTasks ctx tableName subqueries b = .ok (tasks, b')) :
    ∃ view, ctx.readableView tableName = some view ∧ b' = b.skip view.npartitions ∧
      tasks = (b.newTasks .read subqueries (replicate view.numTasks [])).1 := by
  simp only [readTasks] at h
  split at h
  · cases h
  · rename_i view hview
    cases h
    exact ⟨view, hview, rfl, rfl⟩

lemma visits_of_unary {id : Nat} {op : UnaryRelation} {child : PhysicalRelation}
    {visit : List Task → Generator} {b b₁ b' : Builder} {inputs tasks : List Task}
    (hvis : visitUnary ctx op = .ok visit) (hch : G child b inputs b₁)
    (h : visit inputs b₁ = .ok (tasks, b')) : Visits ctx G (.unary id op child) b tasks b' := by
  cases op with
  | filter | project | genIdentCol => cases hvis; exact .each rfl hch (ok.inj h)
  | concatenateSort | window => cases hvis; exact .concatenated rfl hch (ok.inj h)
  | shuffle => cases hvis; cases h; exact .shuffle hch rfl
  | fetch offset count =>
    cases hvis
    simp only [visitFetch] at h
    split at h
    · cases h
    · exact .concatenated rfl hch (ok.inj h)
  | concatenateAggregate values =>
    cases hvis
    simp only [visitConcatenateAggregate] at h
    split at h
    · cases h
    · exact .aggregate hch rfl rfl (ok.inj h)
  | write tableName =>
    simp only [visitUnary] at hvis
    split at hvis
    · cases hvis
    · cases hvis
      simp only [visitWrite] at h
      split at h
      all_goals
        obtain ⟨numTasks, -, h⟩ := bind_eq_ok h
        cases h
      · exact .writeConcatenated hch rfl
      · exact .write hch

variable {left right : PhysicalRelation} {generateLeft generateRight : Generator} {id : Nat}
  {b b' : Builder} {tasks : List Task}

section

variable (hL : Describes G left generateLeft) (hR : Describes G right generateRight)
include hL hR

lemma visits_of_broadcastJoin {joinType : JoinType} {policy : BroadcastPolicy}
    (h : visitBroadcastJoin ctx joinType policy generateLeft generateRight b = .ok (tasks, b')) :
    Visits ctx G (.binary id (.broadcastJoin joinType policy) left right) b tasks b' := by
  unfold visitBroadcastJoin at h
  split at h
  · cases h
  cases policy with
  | right =>
    obtain ⟨⟨rights, b₁⟩, hr, h⟩ := bind_eq_ok h
    obtain ⟨⟨lefts, b₂⟩, hl, h⟩ := bind_eq_ok h
    exact .broadcastRight (hR hr) (hL hl) rfl (ok.inj h)
  | left =>
    dsimp only at h
    split at h
    · cases h
    rename_i htype
    obtain ⟨⟨lefts, b₁⟩, hl, hrest⟩ := bind_eq_ok h
    obtain ⟨⟨rights, b₂⟩, hr, hjs⟩ := bind_eq_ok hrest
    dsimp only at hjs
    split at hjs
    · exact .broadcastLeftPositions ‹_› (hL hl) (hR hr) rfl rfl rfl (ok.inj hjs)
    · obtain rfl : joinType = .inner := by
        by_contra hne
        exact htype ⟨hne, by tauto, by tauto⟩
      exact .broadcastLeft (hL hl) (hR hr) rfl (ok.inj hjs)

lemma visits_of_shuffleJoin {joinType : JoinType}
    (h : visitShuffleJoin ctx joinType generateLeft generateRight b = .ok (tasks, b')) :
    Visits ctx G (.binary id (.shuffleJoin joinType) left right) b tasks b' := by
  unfold visitShuffleJoin at h
  split at h
  · cases h
  obtain ⟨⟨lefts, b₁⟩, hl, h⟩ := bind_eq_ok h
  obtain ⟨⟨rights, b₂⟩, hr, h⟩ := bind_eq_ok h
  dsimp only at h
  split at h
  · cases h
  rename_i hvalid
  have hvalid : isValidInput ctx lefts = true ∧ isValidInput ctx rights = true := by
    simpa using hvalid
  exact .shuffleJoin (hL hl) (hR hr) hvalid.1 hvalid.2 h

lemma visits_of_unionAll
    (h : visitUnionAll generateLeft generateRight b = .ok (tasks, b')) :
    Visits ctx G (.binary id .unionAll left right) b tasks b' := by
  obtain ⟨⟨lefts, b₁⟩, hl, h⟩ := bind_eq_ok h
  obtain ⟨⟨rights, b₂⟩, hr, h⟩ := bind_eq_ok h
  cases h
  exact .unionAll (hL hl) (hR hr)

end

end Inversion

/-! ### Induction -/

variable {ctx : Context} {P : PhysicalRelation → Builder → List Task → Builder → Prop}

section

variable (hcached : ∀ {r b tasks}, b.tasksCache r.id = some tasks → P r b tasks b)
include hcached

/-- The two cases of `is_cached`. -/
lemma describes_cached {r : PhysicalRelation} {visit : Generator}
    (hvis : ∀ {b tasks b'}, b.tasksCache r.id = none → visit b = .ok (tasks, b') →
      P r b tasks (b'.updateCache r.id tasks)) : Describes P r (cached r.id visit) := by
  intro b tasks b' h
  simp only [cached] at h
  split at h
  · cases h
    exact hcached ‹_›
  · obtain ⟨⟨ts, b₁⟩, hvisit, h⟩ := bind_eq_ok h
    cases h
    exact hvis ‹_› hvisit

/-- What holds of cached tasks, and of the tasks of a visit if it holds of the children, holds of
all generated tasks. -/
theorem generate_induction
    (hvis : ∀ {r b tasks b'}, b.tasksCache r.id = none → Visits ctx P r b tasks b' →
      P r b tasks (b'.updateCache r.id tasks)) (r : PhysicalRelation) :
    Describes P r (generateTasks ctx r) := by
  induction r with
  | read id tableName =>
    refine describes_cached (r := .read id tableName) hcached fun hnone h => hvis hnone ?_
    obtain ⟨view, hview, rfl, rfl⟩ := readTasks_eq_ok h
    exact .read hview
  | readIn id tableName subquery ih =>
    refine describes_cached (r := .readIn id tableName subquery) hcached
      fun hnone h => hvis hnone ?_
    obtain ⟨⟨tasks, b₁⟩, hsub, h⟩ := bind_eq_ok h
    obtain ⟨view, hview, rfl, rfl⟩ := readTasks_eq_ok h
    exact .readIn hview (ih hsub) rfl
  | unary id op child ih =>
    refine describes_cached (r := .unary id op child) hcached fun hnone h => hvis hnone ?_
    obtain ⟨visit, hvisit, h⟩ := bind_eq_ok h
    obtain ⟨⟨inputs, b₁⟩, hch, h⟩ := bind_eq_ok h
    exact visits_of_unary hvisit (ih hch) h
  | binary id op left right ihLeft ihRight =>
    refine describes_cached (r := .binary id op left right) hcached
      fun hnone h => hvis hnone ?_
    cases op with
    | broadcastJoin joinType policy => exact visits_of_broadcastJoin ihLeft ihRight h
    | shuffleJoin joinType => exact visits_of_shuffleJoin ihLeft ihRight h
    | unionAll => exact visits_of_unionAll ihLeft ihRight h

end

end Gqe.TaskGraph
