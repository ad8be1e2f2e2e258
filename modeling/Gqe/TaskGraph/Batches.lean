import Gqe.TaskGraph.Roots

/-!
# Batches of tasks

A visit generates new tasks in batches, all of them of the current stage, and ends the stage between
them. Apart from that, a relation with one child differs from others only in how many tasks it hands
on and in whether it ends a stage, and that is known before the tasks are generated.
-/

namespace Gqe.TaskGraph

open Builder Relation List UnaryRelation

/-! ### What is known of a plan before its tasks are generated -/

/-- The relations that concatenate their input tasks. -/
def UnaryRelation.concatenates : UnaryRelation → Bool
  | concatenateSort | window | fetch _ _ | concatenateAggregate _ => true
  | filter | project | genIdentCol | shuffle | write _ => false

namespace PhysicalRelation

@[simp] def subplans : PhysicalRelation → List PhysicalRelation
  | r@(read _ _) => [r]
  | r@(readIn _ _ subquery) => r :: subquery.subplans
  | r@(unary _ _ child) => r :: child.subplans
  | r@(binary _ _ left right) => r :: (left.subplans ++ right.subplans)

/-- A plan as a graph of relations in memory: one relation for each address. -/
def IsConsistent (r : PhysicalRelation) : Prop :=
  ∀ s ∈ r.subplans, ∀ s' ∈ r.subplans, s.id = s'.id → s = s'

instance (r : PhysicalRelation) : Decidable r.IsConsistent :=
  inferInstanceAs (Decidable (∀ s ∈ r.subplans, ∀ s' ∈ r.subplans, s.id = s'.id → s = s'))

def isReadOnly : PhysicalRelation → Bool
  | read _ _ => true
  | readIn _ _ subquery => subquery.isReadOnly
  | unary _ (.write _) _ => false
  | unary _ _ child => child.isReadOnly
  | binary _ _ left right => left.isReadOnly && right.isReadOnly

variable (ctx : Context)

/-- The number of tasks that a relation hands to its parent. -/
def numTasks : PhysicalRelation → Nat
  | read _ tableName | readIn _ tableName _ =>
    ((ctx.readableView tableName).map ReadableView.numTasks).getD 1
  | unary _ op child => if op.concatenates then 1 else child.numTasks
  | binary _ (.broadcastJoin _ .right) left _ => left.numTasks
  | binary _ (.broadcastJoin joinType .left) _ right =>
    if joinType = .inner then right.numTasks else 1
  | binary _ (.shuffleJoin _) _ _ => ctx.numShufflePartitions
  | binary _ .unionAll left right => left.numTasks + right.numTasks

/-- A pipeline breaker is inserted while the tasks of a relation are generated. -/
@[simp] def breaks : PhysicalRelation → Bool
  | read _ _ => false
  | readIn _ _ subquery => subquery.breaks || subquery.numTasks ctx != 1
  | unary _ op child =>
    child.breaks || op == .shuffle || op.concatenates && child.numTasks ctx != 1
  | binary _ (.shuffleJoin _) left right => left.breaks || right.breaks
  | binary _ _ _ _ => true

/-- A pipeline breaker is inserted after the last task of a relation. -/
def isClosed : PhysicalRelation → Bool
  | unary _ .shuffle _ => true
  | binary _ .unionAll _ right => right.isClosed
  | _ => false

/-- No shuffle join of the plan holds tasks of the current stage while its right side ends it. -/
def isOrdered : PhysicalRelation → Bool
  | read _ _ => true
  | readIn _ _ subquery => subquery.isOrdered
  | unary _ _ child => child.isOrdered
  | binary _ (.shuffleJoin _) left right =>
    left.isOrdered && right.isOrdered && (!right.breaks ctx || left.isClosed)
  | binary _ _ left right => left.isOrdered && right.isOrdered

lemma self_mem_subplans (r : PhysicalRelation) : r ∈ r.subplans := by
  cases r <;> simp

lemma subplans_trans {r s t : PhysicalRelation} (hs : s ∈ r.subplans) (ht : t ∈ s.subplans) :
    t ∈ r.subplans := by
  induction r with
  | read id tableName =>
    obtain rfl := mem_singleton.1 hs
    exact ht
  | readIn id tableName child ih | unary id op child ih =>
    rcases mem_cons.1 hs with rfl | hs
    · exact ht
    · exact mem_cons_of_mem _ (ih hs)
  | binary id op left right ihLeft ihRight =>
    rcases mem_cons.1 hs with rfl | hs
    · exact ht
    · refine mem_cons_of_mem _ (mem_append.2 ?_)
      exact (mem_append.1 hs).imp ihLeft ihRight

lemma numTasks_pos (r : PhysicalRelation) : 0 < r.numTasks ctx := by
  induction r with
  | read id tableName | readIn id tableName =>
    simp only [numTasks]
    cases ctx.readableView tableName with
    | none => exact Nat.one_pos
    | some view => exact view.pos
  | unary id op child ih =>
    simp only [numTasks]
    split
    · exact Nat.one_pos
    · exact ih
  | binary id op left right ihLeft ihRight =>
    match op with
    | .broadcastJoin joinType .right => exact ihLeft
    | .broadcastJoin joinType .left =>
      simp only [numTasks]
      split
      · exact ihRight
      · exact Nat.one_pos
    | .shuffleJoin joinType => exact ctx.numShufflePartitions_pos
    | .unionAll => exact Nat.add_pos_left ihLeft _

/-- The relations other than writes that have one child; a subquery is a child here. -/
inductive IsOver : PhysicalRelation → PhysicalRelation → Prop
  | readIn {id tableName child} : IsOver (readIn id tableName child) child
  | unary {id op child} : (∀ tableName, op ≠ .write tableName) → IsOver (unary id op child) child

variable {ctx} {r child : PhysicalRelation}

section

variable (h : IsOver r child)
include h

lemma IsOver.subplans : r.subplans = r :: child.subplans := by
  cases h <;> rfl

lemma IsOver.isReadOnly : r.isReadOnly = child.isReadOnly := by
  cases h with
  | readIn => rfl
  | @unary id op child hop => cases op <;> first | rfl | exact absurd rfl (hop _)

lemma IsOver.isOrdered : r.isOrdered ctx = child.isOrdered ctx := by
  cases h <;> rfl

lemma IsOver.breaks (hbr : child.breaks ctx) : r.breaks ctx := by
  cases h <;> simp [hbr]

end

/-- The two sides of a relation, in the order in which they are generated. -/
def AreSides (left right first second : PhysicalRelation) : Prop :=
  first = left ∧ second = right ∨ first = right ∧ second = left

variable {left right first second : PhysicalRelation}

lemma AreSides.first_mem (h : AreSides left right first second) : first = left ∨ first = right :=
  h.imp And.left And.left

lemma AreSides.swap (h : AreSides left right first second) : AreSides left right second first :=
  h.symm.imp And.symm And.symm

end PhysicalRelation

open PhysicalRelation

/-! ### Batches -/

/-- One task needs another one of its stage, or is this task. -/
abbrev SameStageReaches : Task → Task → Prop := ReflTransGen tasks.SameStage

/-- A property of new tasks of the current stage that they have if the tasks they depend on do. -/
def IsHereditary (b : Builder) (P : Task → Prop) : Prop :=
  ∀ t, b.currentTaskId ≤ t.taskId → t.stageId = b.currentStageId → t.kind ≠ .write →
    (∀ d ∈ t.dependent, P d) → P t

/-- New tasks of the current stage that are made of the tasks `inputs`, directly or by way of other
new tasks, and that need all of them. -/
structure Batch (b : Builder) (inputs ts : List Task) (b' : Builder) : Prop where
  skip : ∃ n, b' = b.skip n
  nonempty : ts ≠ []
  stageId : ∀ t ∈ ts, t.stageId = b.currentStageId
  taskId_lt : ∀ t ∈ ts, t.taskId < b'.currentTaskId
  made : ∀ {P : Task → Prop}, IsHereditary b P → (∀ d ∈ inputs, P d) → ∀ t ∈ ts, P t
  needs : ∀ d ∈ inputs, ∃ t ∈ ts, ∃ u, (u = t ∨ tasks.SameStage t u) ∧ d ∈ u.dependent

/-- Batches each of which is made of the one before, with pipeline breakers in between. -/
inductive Chain : Builder → List Task → List Task → Builder → Prop
  | refl {b ts} : Chain b ts ts b
  | batch {b us vs b₁ ts b'} : Chain b us vs b₁ → Batch b₁ vs ts b' → Chain b us ts b'
  | endStage {b us ts b₁} : Chain b us ts b₁ → Chain b us ts (b₁.insertPipelineBreaker ts)

/-- What a relation does with the tasks of its child: how many tasks it hands on, and whether it
ends the stage. -/
structure Derives (ctx : Context) (r child : PhysicalRelation) (b : Builder) (inputs ts : List Task)
    (b' : Builder) : Prop where
  chain : Chain b inputs ts b'
  length : ts.length = r.numTasks ctx
  stageId : b'.currentStageId = b.currentStageId ∧ r.breaks ctx = child.breaks ctx ∨
    b.currentStageId < b'.currentStageId ∧ r.breaks ctx
  closed : r.isClosed → ∀ t ∈ ts, t.stageId < b'.currentStageId
  current : r.isClosed = false → ∃ t ∈ ts, t.stageId = b'.currentStageId

/-- A successful visit of a relation, in batches. -/
inductive Shape (ctx : Context) (G : PhysicalRelation → Builder → List Task → Builder → Prop) :
    PhysicalRelation → Builder → List Task → Builder → Prop
  | read {id tableName b ts b'} (hbatch : Batch b [] ts b')
    (hlength : ts.length = (read id tableName).numTasks ctx) :
    Shape ctx G (.read id tableName) b ts b'
  | single {r child b inputs b₁ ts b'} (hover : IsOver r child) (hchild : G child b inputs b₁)
    (hderives : inputs.length = child.numTasks ctx → Derives ctx r child b₁ inputs ts b') :
    Shape ctx G r b ts b'
  | broadcast {id joinType policy left right first second b firsts b₁ seconds b₂ joins b'}
    (hsides : AreSides left right first second) (hfirst : G first b firsts b₁)
    (hsecond : G second (b₁.insertPipelineBreaker firsts) seconds b₂)
    (hjoins : seconds ≠ [] → Batch b₂ (seconds ++ firsts) joins b')
    (hlength : seconds.length = second.numTasks ctx →
      joins.length = (binary id (.broadcastJoin joinType policy) left right).numTasks ctx) :
    Shape ctx G (.binary id (.broadcastJoin joinType policy) left right) b joins b'
  | positions {id joinType left right b lefts b₁ rights b₂ c b₃ joins b₄ positionLists b₅ ts b'}
    (hleft : G left b lefts b₁) (hright : G right (b₁.insertPipelineBreaker lefts) rights b₂)
    (hjoins : rights ≠ [] → Batch b₂ (rights ++ lefts) joins b₄ ∧
      (c ∈ lefts ∨ Batch b₂ lefts [c] b₃ ∧ ∃ t ∈ joins, tasks.SameStage t c))
    (hpositions : lateMaterializationDependencies ctx joins (b₄.insertPipelineBreaker joins) =
      (positionLists, b₅))
    (hbatch : Batch b₅ (c :: positionLists) ts b')
    (hlength : ts.length = (binary id (.broadcastJoin joinType .left) left right).numTasks ctx) :
    Shape ctx G (.binary id (.broadcastJoin joinType .left) left right) b ts b'
  | shuffleJoin {id joinType left right b lefts b₁ rights b₂ joins b'}
    (hleft : G left b lefts b₁) (hright : G right b₁ rights b₂)
    (hjoins : Batch b₂ (lefts ++ rights) joins b')
    (hlength : joins.length = ctx.numShufflePartitions) :
    Shape ctx G (.binary id (.shuffleJoin joinType) left right) b joins b'
  | unionAll {id left right b lefts b₁ rights b₂} (hleft : G left b lefts b₁)
    (hright : G right (b₁.insertPipelineBreaker lefts) rights b₂) :
    Shape ctx G (.binary id .unionAll left right) b (lefts ++ rights) b₂

variable {ctx : Context} {r child : PhysicalRelation} {b b₁ b' : Builder} {c t d : Task}
  {inputs ts us vs : List Task} {n : Nat} {kind : TaskKind}

namespace Batch

section

variable (h : Batch b inputs ts b')
include h

lemma currentStageId : b'.currentStageId = b.currentStageId := by
  obtain ⟨n, rfl⟩ := h.skip
  rfl

lemma exists_reaches (hd : d ∈ inputs) : ∃ t ∈ ts, t.Reaches d := by
  obtain ⟨t, ht, u, rfl | htu, hdu⟩ := h.needs d hd
  · exact ⟨u, ht, .single hdu⟩
  · exact ⟨t, ht, .tail (.single htu.1) hdu⟩

lemma exists_sameStageReaches (hd : d ∈ inputs)
    (hstage : d.stageId = b.currentStageId) : ∃ t ∈ ts, SameStageReaches t d := by
  obtain ⟨t, ht, u, rfl | htu, hdu⟩ := h.needs d hd
  · exact ⟨u, ht, .single ⟨hdu, hstage.trans (h.stageId u ht).symm⟩⟩
  · exact ⟨t, ht, .tail (.single htu) ⟨hdu, hstage.trans (htu.2.trans (h.stageId t ht)).symm⟩⟩

lemma exists_current : ∃ t ∈ ts, t.stageId = b'.currentStageId := by
  obtain ⟨t, ht⟩ := exists_mem_of_ne_nil ts h.nonempty
  exact ⟨t, ht, (h.stageId t ht).trans h.currentStageId.symm⟩

end

variable {subqueries : List Task} {dependencies : List (List Task)}

lemma newTasks (hkind : kind ≠ .write) (hne : dependencies ≠ []) (hn : dependencies.length ≤ n)
    (hins : ∀ d, d ∈ inputs ↔ ∃ ds ∈ dependencies, d ∈ ds ++ subqueries) :
    Batch b inputs (b.newTasks kind subqueries dependencies).1 (b.skip n) where
  skip := ⟨n, rfl⟩
  nonempty := by
    rwa [← length_pos_iff, length_newTasks, length_pos_iff]
  stageId t ht := (mem_newTasks ht).2.2.1
  taskId_lt t ht := (mem_newTasks ht).2.1.trans_le (Nat.add_le_add_left hn _)
  made hP hd t ht := by
    obtain ⟨hle, -, hstage, hkind', ds, hds, hdep⟩ := mem_newTasks ht
    refine hP t hle hstage (hkind' ▸ hkind) fun d h => hd d ((hins d).2 ⟨ds, hds, ?_⟩)
    rwa [← hdep]
  needs d hd := by
    obtain ⟨ds, hds, hd⟩ := (hins d).1 hd
    obtain ⟨t, ht, -, hdep⟩ : ∃ t ∈ (b.newTasks kind subqueries dependencies).1,
      t.stageId = b.currentStageId ∧ t.dependent = ds ++ subqueries := exists_mem_newTasks hds
    exact ⟨t, ht, t, .inl rfl, hdep ▸ hd⟩

lemma of_newTasks (h : b.newTasks kind subqueries dependencies = (ts, b')) (hkind : kind ≠ .write)
    (hne : dependencies ≠ []) (hins : ∀ d, d ∈ inputs ↔ ∃ ds ∈ dependencies, d ∈ ds ++ subqueries) :
    Batch b inputs ts b' := by
  obtain rfl : b' = b.skip dependencies.length := by rw [← newTasks_snd, h]
  obtain rfl : ts = (b.newTasks kind subqueries dependencies).1 := by rw [h]
  exact newTasks hkind hne le_rfl hins

lemma of_visitEach (h : visitEach kind us b = (ts, b')) (hkind : kind ≠ .write) (hus : us ≠ []) :
    Batch b us ts b' :=
  of_newTasks h hkind (by simpa using hus) (by simp)

/-- Without a pipeline breaker, concatenation makes at most a new task. -/
lemma of_concatenate (hc : b.concatenate ts false = (c, b₁)) :
    ts = [c] ∧ b₁ = b ∨ b₁ = b.skip 1 ∧ Batch b ts [c] b₁ ∧ c.dependent = ts := by
  rcases concatenate_cases ts false b with ⟨task, rfl, heq⟩ | ⟨-, heq⟩
  · cases heq.symm.trans hc
    exact .inl ⟨rfl, rfl⟩
  · cases heq.symm.trans hc
    refine .inr ⟨rfl, newTasks (by simp) (cons_ne_nil ts []) le_rfl (by simp), ?_⟩
    exact append_nil ts

/-- The join tasks of a join one side of which is concatenated for all tasks of the other. -/
lemma of_broadcast {joins : List Task} {pair : Task → List Task}
    (hc : b.concatenate ts false = (c, b₁)) (hpair : ∀ u d, d ∈ pair u ↔ d = u ∨ d = c)
    (hjs : b₁.newTasks .join [] (us.map pair) = (joins, b')) (hus : us ≠ []) :
    Batch b (us ++ ts) joins b' ∧
      (c ∈ ts ∨ Batch b ts [c] b₁ ∧ ∃ t ∈ joins, tasks.SameStage t c) := by
  obtain ⟨u, hu⟩ := exists_mem_of_ne_nil us hus
  have hbatch : Batch b₁ (us ++ [c]) joins b' := by
    refine of_newTasks hjs (by simp) (by simpa using hus) fun d => ?_
    simp only [mem_append, mem_singleton, mem_map, append_nil, exists_exists_and_eq_and, hpair]
    constructor
    · rintro (hd | rfl)
      · exact ⟨d, hd, .inl rfl⟩
      · exact ⟨u, hu, .inr rfl⟩
    · rintro ⟨v, hv, rfl | rfl⟩
      · exact .inl hv
      · exact .inr rfl
  rcases of_concatenate hc with ⟨rfl, rfl⟩ | ⟨rfl, hconc, hdep⟩
  · exact ⟨hbatch, .inl (by simp)⟩
  obtain ⟨t, ht, htc⟩ : ∃ t ∈ joins, tasks.SameStage t c := by
    obtain ⟨t, ht, hstage, hdep⟩ : ∃ t ∈ ((b.skip 1).newTasks .join [] (us.map pair)).1,
        t.stageId = (b.skip 1).currentStageId ∧ t.dependent = pair u ++ [] :=
      exists_mem_newTasks (mem_map.2 ⟨u, hu, rfl⟩)
    rw [hjs] at ht
    refine ⟨t, ht, ?_, ((hconc.stageId c (by simp)).trans hstage.symm)⟩
    rw [tasks_dependent, hdep, append_nil]
    exact (hpair u c).2 (.inr rfl)
  refine ⟨⟨?_, hbatch.nonempty, hbatch.stageId, hbatch.taskId_lt, fun hP hd => ?_, fun d hd => ?_⟩,
    .inr ⟨hconc, t, ht, htc⟩⟩
  · obtain ⟨n, rfl⟩ := hbatch.skip
    exact ⟨1 + n, skip_skip 1 n⟩
  · simp only [forall_mem_append] at hd
    refine hbatch.made (fun t hle => hP t (le_trans (Nat.le_add_right _ 1) hle)) ?_
    exact forall_mem_append.2 ⟨hd.1, hconc.made hP hd.2⟩
  · rcases mem_append.1 hd with hd | hd
    · exact hbatch.needs d (mem_append_left _ hd)
    · exact ⟨t, ht, c, .inr htc, hdep ▸ hd⟩

variable {lefts rights joins : List Task}

/-- The join tasks of a shuffle join, with the tasks that merge partitions. -/
lemma of_shuffleJoinTasks (hvl : isValidInput ctx lefts) (hvr : isValidInput ctx rights)
    (hjs : shuffleJoinTasks lefts rights (List.range ctx.numShufflePartitions) b =
      .ok (joins, b')) : Batch b (lefts ++ rights) joins b' := by
  obtain ⟨hskip, hlen, hjoin, -⟩ := shuffleJoinTasks_spec hjs
  refine ⟨hskip, ?_, fun t ht => (hjoin t ht).stageId, fun t ht => (hjoin t ht).taskId_lt,
    fun {P} hP hins t ht => ?_, ?_⟩
  · rw [← length_pos_iff, hlen, length_range]
    exact ctx.numShufflePartitions_pos
  · have hin : ∀ {side d}, (∀ t ∈ side, P t) → IsPartitionInput b b' side d → P d := by
      rintro side d hside (hd | ⟨hdep, hstage, ⟨idx, hkind⟩, hle, -⟩)
      · exact hside d hd
      · exact hP d hle hstage (by simp [hkind]) fun t ht => hside t (hdep ▸ ht)
    simp only [forall_mem_append] at hins
    refine hP t (hjoin t ht).le_taskId (hjoin t ht).stageId (by simp [(hjoin t ht).kind])
      fun d hd => ?_
    exact ((hjoin t ht).dependent d hd).elim (hin hins.1) (hin hins.2)
  · have hside : ∀ side, isValidInput ctx side → (∀ idx < ctx.numShufflePartitions, ∃ u ∈ joins,
        ∃ d ∈ u.dependent, IsInputOf b side idx d) → ∀ t ∈ side, ∃ u ∈ joins, ∃ d,
        (d = u ∨ tasks.SameStage u d) ∧ t ∈ d.dependent := by
      intro side hvalid hin t ht
      by_cases hpartitioned : isPartitioned side
      · -- every join task merges a partition of all the tasks of the side
        obtain ⟨u, hu, d, hd, hin⟩ := hin 0 ctx.numShufflePartitions_pos
        rw [IsInputOf, if_pos hpartitioned] at hin
        exact ⟨u, hu, d, .inr ⟨hd, hin.2.trans (hjoin u hu).stageId.symm⟩, hin.1 ▸ ht⟩
      · obtain ⟨idx, hidx⟩ := List.getElem?_of_mem ht
        have hlen : side.length = ctx.numShufflePartitions := by
          simpa [isValidInput, hpartitioned] using hvalid
        have hlt : idx < ctx.numShufflePartitions :=
          hlen ▸ (List.getElem?_eq_some_iff.1 hidx).1
        obtain ⟨u, hu, d, hd, hin⟩ := hin idx hlt
        rw [IsInputOf, if_neg hpartitioned, hidx] at hin
        exact ⟨u, hu, u, .inl rfl, Option.some.inj hin ▸ hd⟩
    refine forall_mem_append.2 ⟨hside _ hvl fun idx hidx => ?_, hside _ hvr fun idx hidx => ?_⟩
    all_goals
      obtain ⟨u, hu, l, hl, r, hr, hL, hR⟩ :=
        mem_shuffleJoins hjs (mem_range.2 hidx)
    · exact ⟨u, hu, l, hl, hL⟩
    · exact ⟨u, hu, r, hr, hR⟩

end Batch

/-! ### Chains of batches -/

lemma Chain.stageId_le (h : Chain b us ts b') : b.currentStageId ≤ b'.currentStageId := by
  induction h with
  | refl => exact le_rfl
  | batch _ hbatch ih => exact ih.trans hbatch.currentStageId.ge
  | endStage _ ih => exact ih.trans (Nat.le_succ _)

lemma Chain.concatenate (h : Chain b us ts b₁) (hc : b₁.concatenate ts true = (t, b')) :
    Chain b us [t] b' ∧ b'.currentStageId = b₁.currentStageId + if ts.length = 1 then 0 else 1 := by
  rcases concatenate_cases ts true b₁ with ⟨task, rfl, heq⟩ | ⟨hlen, heq⟩
  · cases heq.symm.trans hc
    exact ⟨h, rfl⟩
  · cases heq.symm.trans hc
    rw [if_neg hlen]
    exact ⟨h.endStage.batch (.newTasks (by simp) (cons_ne_nil ts []) le_rfl (by simp)), rfl⟩

lemma Chain.visitConcatenated (h : Chain b us vs b₁)
    (hvis : TaskGraph.visitConcatenated kind vs b₁ = (ts, b')) (hkind : kind ≠ .write) :
    Chain b us ts b' ∧ ts.length = 1 ∧ (∃ t ∈ ts, t.stageId = b'.currentStageId) ∧
      b'.currentStageId = b₁.currentStageId + if vs.length = 1 then 0 else 1 := by
  rcases hc : b₁.concatenate vs true with ⟨c, b₂⟩
  obtain ⟨hchain, hstage⟩ := h.concatenate hc
  simp only [TaskGraph.visitConcatenated, hc] at hvis
  have hbatch : Batch b₂ [c] ts b' := .of_newTasks hvis hkind (by simp) (by simp)
  exact ⟨hchain.batch hbatch, length_of_newTasks hvis, hbatch.exists_current,
    hbatch.currentStageId.trans hstage⟩

variable {G : PhysicalRelation → Builder → List Task → Builder → Prop}

lemma ne_nil_of_numTasks (h : ts.length = r.numTasks ctx) : ts ≠ [] := by
  rw [← length_pos_iff, h]
  exact r.numTasks_pos ctx

lemma Visits.shape (h : Visits ctx G r b ts b') (hro : r.isReadOnly) : Shape ctx G r b ts b' := by
  cases h with
  | @read _ _ view _ hview =>
    refine .read (.newTasks (by simp) ?_ (by simpa using view.le) (by simp)) ?_
    · simpa using view.pos.ne'
    · simp [length_newTasks, numTasks, hview]
  | @readIn _ _ view subquery _ inputs b₁ q b₂ hview hsub hq =>
    refine .single .readIn hsub fun hins => ?_
    obtain ⟨hchain, hstage⟩ := Chain.refl.concatenate hq
    have hbatch : Batch b₂ [q] (b₂.newTasks .read [q] (replicate view.numTasks [])).1
        (b₂.skip view.npartitions) :=
      .newTasks (by simp) (by simpa using view.pos.ne') (by simpa using view.le)
        (by simp [view.pos.ne'])
    refine ⟨hchain.batch hbatch, by simp [length_newTasks, numTasks, hview], ?_, nofun,
      fun _ => hbatch.exists_current⟩
    rw [skip_currentStageId, hstage, hins, breaks]
    by_cases hone : subquery.numTasks ctx = 1 <;> simp [hone]
  | @each _ op kind child _ inputs b₁ _ _ hop hch htasks =>
    obtain ⟨hclosed, hconcatenates, hkind⟩ : op ≠ .shuffle ∧ op.concatenates = false ∧
        kind ≠ .write := by
      cases op <;> cases hop <;> simp [concatenates]
    refine .single (.unary (by rintro _ rfl; cases hop)) hch fun hins => ?_
    have hbatch := Batch.of_visitEach htasks hkind (ne_nil_of_numTasks hins)
    refine ⟨.batch .refl hbatch, ?_, .inl ⟨hbatch.currentStageId, ?_⟩, fun h => ?_,
      fun _ => hbatch.exists_current⟩
    · simp [length_of_visitEach htasks, hins, numTasks, hconcatenates]
    · simp [hclosed, hconcatenates]
    · cases op <;> first | exact absurd rfl hclosed | cases h
  | @concatenated _ op kind child _ inputs b₁ _ _ hop hch htasks =>
    obtain ⟨hclosed, hconcatenates, hkind⟩ : op ≠ .shuffle ∧ op.concatenates = true ∧
        kind ≠ .write := by
      cases op <;> cases hop <;> simp [concatenates]
    refine .single (.unary (by rintro _ rfl; cases hop)) hch fun hins => ?_
    obtain ⟨hchain, hlen, hcur, hstage⟩ := Chain.refl.visitConcatenated htasks hkind
    refine ⟨hchain, by simp [hlen, numTasks, hconcatenates], ?_, fun h => ?_, fun _ => hcur⟩
    · rw [hstage, hins]
      by_cases hone : child.numTasks ctx = 1 <;> simp [hclosed, hconcatenates, hone]
    · cases op <;> first | exact absurd rfl hclosed | cases h
  | @aggregate _ _ child _ inputs _ firsts _ _ _ _ _ hch hfsts hsnds htasks =>
    refine .single (.unary (by simp)) hch fun hins => ?_
    have hfst := Batch.of_visitEach hfsts (by simp) (ne_nil_of_numTasks hins)
    obtain ⟨hchain, hlen, -, hstage⟩ := (Chain.refl.batch hfst).visitConcatenated hsnds (by simp)
    have hlast := Batch.of_visitEach htasks (by simp) (by rintro rfl; cases hlen)
    refine ⟨hchain.batch hlast, (length_of_visitEach htasks).trans hlen, ?_, nofun,
      fun _ => hlast.exists_current⟩
    rw [hlast.currentStageId, hstage, hfst.currentStageId, length_of_visitEach hfsts, hins]
    by_cases hone : child.numTasks ctx = 1 <;> simp [concatenates, hone]
  | shuffle hch htasks =>
    refine .single (.unary (by simp)) hch fun hins => ?_
    have hbatch := Batch.of_visitEach htasks (by simp) (ne_nil_of_numTasks hins)
    refine ⟨(Chain.batch .refl hbatch).endStage, (length_of_visitEach htasks).trans hins,
      .inr ⟨Nat.lt_succ_of_le hbatch.currentStageId.ge, by simp⟩, fun _ t ht => ?_, nofun⟩
    exact Nat.lt_succ_of_le ((hbatch.stageId t ht).trans hbatch.currentStageId.symm).le
  | write | writeConcatenated => cases hro
  | broadcastRight hr hl hconc hjs =>
    refine .broadcast (.inr ⟨rfl, rfl⟩) hr hl
      (fun hne => (Batch.of_broadcast hconc (by simp) hjs hne).1) fun hlen => ?_
    rw [length_of_newTasks hjs, length_map, hlen]
    rfl
  | broadcastLeft hl hr hconc hjs =>
    refine .broadcast (.inl ⟨rfl, rfl⟩) hl hr
      (fun hne => (Batch.of_broadcast hconc (by simp [or_comm]) hjs hne).1) fun hlen => ?_
    rw [length_of_newTasks hjs, length_map, hlen]
    rfl
  | broadcastLeftPositions hjoinType hl hr hconc hjs hpositions htasks =>
    refine .positions hl hr (Batch.of_broadcast hconc (by simp [or_comm]) hjs)
      hpositions (.of_newTasks htasks (by simp) (by simp) (by simp)) ?_
    rw [length_of_newTasks htasks]
    rcases hjoinType with rfl | rfl <;> rfl
  | shuffleJoin hl hr hvl hvr hjs =>
    refine .shuffleJoin hl hr (.of_shuffleJoinTasks hvl hvr hjs) ?_
    rw [(shuffleJoinTasks_spec hjs).2.1, length_range]
  | unionAll hl hr => exact .unionAll hl hr

end Gqe.TaskGraph
