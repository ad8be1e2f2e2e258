import Gqe.Executor.StageOrder
import Gqe.TaskGraph.Batches

/-!
# Plans whose stages are in order

A task that is handed to a parent relation and belongs to the current stage has to be among the root
tasks of the stage, or be needed by one of them, before a pipeline breaker ends the stage. A shuffle
join generates its right side while it holds the tasks of its left side. If the right side ends a
stage, the left side has to have ended its own.
-/

namespace Gqe.TaskGraph

open Builder Fallible PhysicalRelation Relation List

/-! ### Tasks whose dependencies are in order -/

/-- A task and all the tasks that it needs depend on tasks that are executed by then. -/
structure OrderedTask (stageRootTasks : List (List Task)) (t : Task) : Prop where
  dependent : ∀ u, t.Reaches u → ∀ d ∈ u.dependent, d.stageId ≤ u.stageId ∧
    (d.stageId < u.stageId → tasks.Covered stageRootTasks d.stageId d)
  emits : ∀ u, t.Reaches u → u.kind ≠ .write

/-- A task of an earlier stage is executed in that stage. -/
structure Fine (b : Builder) (t : Task) : Prop extends OrderedTask b.stageRootTasks t where
  le : t.stageId ≤ b.currentStageId
  covered : t.stageId < b.currentStageId → tasks.Covered b.stageRootTasks t.stageId t

variable {ctx : Context} {root r : PhysicalRelation} {b b₁ b₂ b' : Builder} {t d : Task}
  {ts us pending : List Task} {n : Nat}

variable {roots roots' : List (List Task)}

lemma covered_append {k : Nat} (h : tasks.Covered roots k t) :
    tasks.Covered (roots ++ roots') k t := by
  obtain ⟨r, ⟨ts, hts, hr⟩, hrt⟩ := h
  exact ⟨r, ⟨ts, by rw [List.getElem?_append_left (List.getElem?_eq_some_iff.1 hts).1, hts], hr⟩,
    hrt⟩

lemma OrderedTask.append (h : OrderedTask roots t) : OrderedTask (roots ++ roots') t :=
  ⟨fun u hu d hd => (h.dependent u hu d hd).imp_right fun hlt hd => covered_append (hlt hd),
    h.emits⟩

lemma Fine.skip (h : Fine b t) : Fine (b.skip n) t := ⟨h.toOrderedTask, h.le, h.covered⟩

/-- A new task is fine if it depends on fine tasks. -/
lemma fine_of_dependent (hstage : t.stageId = b.currentStageId) (hkind : t.kind ≠ .write)
    (h : ∀ d ∈ t.dependent, Fine b d) : Fine b t := by
  refine ⟨⟨fun u hu d hd => ?_, fun u hu => ?_⟩, hstage.le, fun hlt => absurd hstage hlt.ne⟩
  · rcases hu.cases with rfl | ⟨v, hv, hvu⟩
    · rw [hstage]
      exact ⟨(h d hd).le, (h d hd).covered⟩
    · exact (h v hv).dependent u hvu d hd
  · rcases hu.cases with rfl | ⟨v, hv, hvu⟩
    · exact hkind
    · exact (h v hv).emits u hvu

/-! ### The invariant of the builder -/

/-- The tasks of the current stage that were handed on are needed by the pending tasks. -/
structure Accounted (ctx : Context) (root : PhysicalRelation) (b : Builder) (pending : List Task) :
    Prop where
  length : b.stageRootTasks.length = b.currentStageId
  roots : ∀ ts ∈ b.stageRootTasks, ∀ t ∈ ts, OrderedTask b.stageRootTasks t
  fine : ∀ t ∈ pending, Fine b t
  cached : ∀ id ts, b.tasksCache id = some ts → ∀ t ∈ ts, Fine b t ∧
    (t.stageId = b.currentStageId → ∃ o ∈ pending, SameStageReaches o t)
  counted : ∀ r ∈ root.subplans, ∀ ts, b.tasksCache r.id = some ts →
    ts.length = r.numTasks ctx ∧ (r.isClosed → ∀ t ∈ ts, t.stageId < b.currentStageId)

/-- No pending task belongs to the current stage. -/
def AllClosed (b : Builder) (pending : List Task) : Prop :=
  ∀ o ∈ pending, o.stageId < b.currentStageId

lemma AllClosed.mono (h : AllClosed b pending) (hle : b.currentStageId ≤ b'.currentStageId) :
    AllClosed b' pending := fun o ho => (h o ho).trans_le hle

variable {inputs : List Task}

namespace Accounted

section

variable (h : Accounted ctx root b pending)
include h

lemma skip : Accounted ctx root (b.skip n) pending where
  length := h.length
  roots := h.roots
  fine t ht := (h.fine t ht).skip
  cached id ts hts t ht := ⟨(h.cached id ts hts t ht).1.skip, (h.cached id ts hts t ht).2⟩
  counted := h.counted

/-- Other tasks may be pending if they need those of the current stage. -/
lemma replace (hus : ∀ t ∈ us, Fine b t)
    (hneeds : ∀ o ∈ pending, o.stageId = b.currentStageId → ∃ u ∈ us, SameStageReaches u o) :
    Accounted ctx root b us where
  length := h.length
  roots := h.roots
  fine := hus
  cached id ts hts t ht := by
    refine (h.cached id ts hts t ht).imp_right fun hcur hstage => ?_
    obtain ⟨o, ho, hot⟩ := hcur hstage
    have hostage : o.stageId = b.currentStageId :=
      (Executor.Tasks.stageId_of_sameStage hot).symm.trans hstage
    obtain ⟨u, hu, huo⟩ := hneeds o ho hostage
    exact ⟨u, hu, huo.trans hot⟩
  counted := h.counted

lemma add (hts : ∀ t ∈ ts, Fine b t) : Accounted ctx root b (pending ++ ts) :=
  h.replace (fun t ht => (mem_append.1 ht).elim (h.fine t) (hts t))
    fun o ho _ => ⟨o, mem_append_left _ ho, .refl⟩

lemma updateCache (hroot : root.IsConsistent)
    (hr : r ∈ root.subplans) (hts : ∀ t ∈ ts, t ∈ pending) (hlen : ts.length = r.numTasks ctx)
    (hclosed : r.isClosed → AllClosed b ts) :
    Accounted ctx root (b.updateCache r.id ts) pending where
  length := h.length
  roots := h.roots
  fine t ht := ⟨(h.fine t ht).toOrderedTask, (h.fine t ht).le, (h.fine t ht).covered⟩
  cached id us hus t ht := by
    have hfine : Fine b t ∧
        (t.stageId = b.currentStageId → ∃ o ∈ pending, SameStageReaches o t) := by
      simp only [Builder.updateCache, Function.update_apply] at hus
      split at hus
      · cases hus
        exact ⟨h.fine t (hts t ht), fun _ => ⟨t, hts t ht, .refl⟩⟩
      · exact h.cached id us hus t ht
    exact ⟨⟨hfine.1.toOrderedTask, hfine.1.le, hfine.1.covered⟩, hfine.2⟩
  counted s hs us hus := by
    simp only [Builder.updateCache, Function.update_apply] at hus
    split at hus
    · obtain rfl := hroot s hs r hr ‹_›
      cases hus
      exact ⟨hlen, hclosed⟩
    · exact h.counted s hs us hus

/-- A pipeline breaker ends the stage of all pending tasks that its root tasks need. -/
lemma insertPipelineBreaker (hts : ∀ t ∈ ts, t ∈ pending)
    (hneeds : ∀ o ∈ pending, o.stageId = b.currentStageId → ∃ t ∈ ts, SameStageReaches t o) :
    Accounted ctx root (b.insertPipelineBreaker ts) pending ∧
      AllClosed (b.insertPipelineBreaker ts) pending := by
  have hclosed : ∀ {t}, Fine b t → t.stageId < (b.insertPipelineBreaker ts).currentStageId :=
    fun ht => Nat.lt_succ_of_le ht.le
  have hcov : ∀ {o u}, o ∈ pending → SameStageReaches o u → u.stageId = b.currentStageId →
      tasks.Covered (b.insertPipelineBreaker ts).stageRootTasks u.stageId u := by
    intro o u ho hou hu
    have hostage : o.stageId = b.currentStageId :=
      (Executor.Tasks.stageId_of_sameStage hou).symm.trans hu
    obtain ⟨t, ht, hto⟩ := hneeds o ho hostage
    have htstage : t.stageId = b.currentStageId :=
      (Executor.Tasks.stageId_of_sameStage hto).symm.trans hostage
    refine ⟨t, ⟨ts.filter (·.stageId = b.currentStageId), ?_, ?_⟩, hto.trans hou⟩
    · simp [hu, ← h.length]
    · simp [ht, htstage]
  have hfine : ∀ {u}, Fine b u →
      (u.stageId = b.currentStageId → ∃ o ∈ pending, SameStageReaches o u) →
      Fine (b.insertPipelineBreaker ts) u := by
    intro u hu hpend
    refine ⟨hu.toOrderedTask.append, (hclosed hu).le, fun _ => ?_⟩
    rcases hu.le.lt_or_eq with hlt | heq
    · exact covered_append (hu.covered hlt)
    · obtain ⟨o, ho, hou⟩ := hpend heq
      exact hcov ho hou heq
  refine ⟨⟨?_, ?_, ?_, ?_, ?_⟩, fun o ho => hclosed (h.fine o ho)⟩
  · simp [h.length]
  · intro us hus t ht
    rcases mem_append.1 hus with hus | hus
    · exact (h.roots us hus t ht).append
    · obtain rfl := mem_singleton.1 hus
      exact (h.fine t (hts t (mem_of_mem_filter ht))).toOrderedTask.append
  · exact fun t ht => hfine (h.fine t ht) fun _ => ⟨t, ht, .refl⟩
  · intro id us hus t ht
    obtain ⟨hfine', hpend⟩ := h.cached id us hus t ht
    exact ⟨hfine hfine' hpend, fun hstage => absurd hstage (hclosed hfine').ne⟩
  · intro s hs us hus
    refine (h.counted s hs us hus).imp_right fun hclosed' hs t ht => ?_
    exact (hclosed' hs t ht).trans (Nat.lt_succ_self _)

end

/-- The stage ends with the tasks that are handed on, when no other pending task belongs to it. -/
lemma endStage (h : Accounted ctx root b (pending ++ ts)) (hclosed : AllClosed b pending) :
    Accounted ctx root (b.insertPipelineBreaker ts) (pending ++ ts) ∧
      AllClosed (b.insertPipelineBreaker ts) (pending ++ ts) := by
  refine h.insertPipelineBreaker (fun t ht => mem_append_right _ ht) fun o ho hstage => ?_
  rcases mem_append.1 ho with ho | ho
  · exact absurd hstage (hclosed o ho).ne
  · exact ⟨o, ho, .refl⟩

/-- New tasks take the place of the pending tasks they are made of. -/
lemma batch (h : Accounted ctx root b (pending ++ us)) (hbatch : Batch b inputs ts b')
    (hins : ∀ d ∈ inputs, Fine b d) (hneeds : ∀ u ∈ us, u.stageId = b.currentStageId → u ∈ inputs) :
    Accounted ctx root b' (pending ++ ts) := by
  obtain ⟨n, rfl⟩ := hbatch.skip
  have hfine := hbatch.made (fun t _ hstage hkind => fine_of_dependent hstage hkind) hins
  refine (h.replace (fun t ht => ?_) fun o ho hstage => ?_).skip
  · exact (mem_append.1 ht).elim (fun ht => h.fine t (mem_append_left _ ht)) (hfine t)
  · rcases mem_append.1 ho with ho | ho
    · exact ⟨o, mem_append_left _ ho, .refl⟩
    · obtain ⟨t, ht, hto⟩ := hbatch.exists_sameStageReaches (hneeds o ho hstage) hstage
      exact ⟨t, mem_append_right _ ht, hto⟩

lemma chain (hchain : Chain b us ts b') (h : Accounted ctx root b (pending ++ us))
    (hclosed : b.currentStageId < b'.currentStageId → AllClosed b pending) :
    Accounted ctx root b' (pending ++ ts) := by
  induction hchain with
  | refl => exact h
  | batch _ hbatch ih =>
    have hb := ih fun hlt => hclosed (hlt.trans_eq hbatch.currentStageId.symm)
    exact hb.batch hbatch (fun d hd => hb.fine d (mem_append_right _ hd)) fun u hu _ => hu
  | endStage hchain ih =>
    have hpend := hclosed (Nat.lt_succ_of_le hchain.stageId_le)
    exact ((ih fun _ => hpend).endStage (hpend.mono hchain.stageId_le)).1

end Accounted

/-! ### The visits keep the invariant -/

/-- What the generation of the tasks of an ordered plan keeps. -/
structure Generated (ctx : Context) (root r : PhysicalRelation) (b : Builder)
    (pending ts : List Task) (b' : Builder) : Prop where
  accounted : Accounted ctx root b' (pending ++ ts)
  stageId_le : b.currentStageId ≤ b'.currentStageId
  stageId_eq : r.breaks ctx = false → b'.currentStageId = b.currentStageId
  closed : r.isClosed → AllClosed b' ts
  length : ts.length = r.numTasks ctx

/-- The generation of the tasks of a part of the plan, while other tasks are pending. -/
def KeepsAccounted (ctx : Context) (root r : PhysicalRelation) (b : Builder) (ts : List Task)
    (b' : Builder) : Prop :=
  r ∈ root.subplans → r.isOrdered ctx → r.isReadOnly → ∀ pending, Accounted ctx root b pending →
    (r.breaks ctx → AllClosed b pending) → Generated ctx root r b pending ts b'

lemma Generated.over {child : PhysicalRelation} (hch : Generated ctx root child b pending inputs b₁)
    (hder : Derives ctx r child b₁ inputs ts b') (hbr : r.breaks ctx → AllClosed b pending) :
    Generated ctx root r b pending ts b' := by
  have hle := hder.chain.stageId_le
  refine ⟨hch.accounted.chain hder.chain fun hlt => ?_, hch.stageId_le.trans hle,
    fun h => ?_, hder.closed, hder.length⟩
  · obtain ⟨heq, -⟩ | ⟨-, hbreak⟩ := hder.stageId
    · exact absurd heq hlt.ne'
    · exact (hbr hbreak).mono hch.stageId_le
  · obtain ⟨heq, hbreak⟩ | ⟨-, hbreak⟩ := hder.stageId
    · exact heq.trans (hch.stageId_eq (hbreak ▸ h))
    · simp [hbreak] at h

section Binary

variable {id : Nat} {left right first second : PhysicalRelation} {op : BinaryRelation}
  {firsts seconds : List Task}

lemma KeepsAccounted.of_side {side : PhysicalRelation} (hside : side = left ∨ side = right)
    (h : KeepsAccounted ctx root side b ts b₁) (hr : binary id op left right ∈ root.subplans)
    (hord : (binary id op left right).isOrdered ctx) (hro : (binary id op left right).isReadOnly)
    (hb : Accounted ctx root b pending) (hbr : side.breaks ctx → AllClosed b pending) :
    Generated ctx root side b pending ts b₁ := by
  refine h (subplans_trans hr ?_) ?_ ?_ pending hb hbr
  · rcases hside with rfl | rfl <;> simp [self_mem_subplans]
  · cases op <;> rcases hside with rfl | rfl <;> simp_all [isOrdered]
  · rcases hside with rfl | rfl <;> simp_all [isReadOnly]

lemma Generated.both (hfst : Generated ctx root first b pending firsts b₁)
    (hsnd : Generated ctx root second (b₁.insertPipelineBreaker firsts) (pending ++ firsts) seconds
      b₂) (hclosed : AllClosed b pending) :
    AllClosed b₂ (pending ++ firsts) ∧ b.currentStageId ≤ b₂.currentStageId :=
  ⟨(hfst.accounted.endStage (hclosed.mono hfst.stageId_le)).2.mono hsnd.stageId_le,
    (hfst.stageId_le.trans (Nat.le_succ _)).trans hsnd.stageId_le⟩

/-- The tasks of both sides are replaced by those that are made of them. -/
lemma Accounted.join (h : Accounted ctx root b (pending ++ firsts ++ seconds))
    (hins : inputs.Perm (firsts ++ seconds)) (hbatch : Batch b inputs ts b') :
    Accounted ctx root b' (pending ++ ts) := by
  rw [append_assoc] at h
  exact h.batch hbatch (fun d hd => h.fine d (mem_append_right _ (hins.subset hd)))
    fun u hu _ => hins.symm.subset hu

/-- The tasks whose position lists are merged belong to an earlier stage. -/
lemma Accounted.positions {joins : List Task}
    (hb : Accounted ctx root b pending) (hclosed : AllClosed b pending)
    (hjs : ∀ t ∈ joins, t ∈ pending)
    (hpositions : lateMaterializationDependencies ctx joins b = (ts, b')) :
    Accounted ctx root b' pending ∧ AllClosed b' pending ∧ (∀ t ∈ ts, Fine b' t) ∧
      b.currentStageId ≤ b'.currentStageId := by
  simp only [lateMaterializationDependencies] at hpositions
  split at hpositions
  · cases hpositions
    have hb₁ : Accounted ctx root (b.skip (min ctx.numRanks joins.length)) (pending ++ (b.newTasks
        .extractMarkJoinPositions [] (List.replicate (min ctx.numRanks joins.length) [])).1) :=
      hb.skip.add ?_
    · rw [newTasks_snd, length_replicate]
      obtain ⟨hb', hclosed'⟩ := hb₁.endStage hclosed
      have hfine := forall_mem_append.1 hb'.fine
      exact ⟨hb'.replace hfine.1 fun o ho hstage => absurd hstage (hclosed' o ho).ne,
        (forall_mem_append.1 hclosed').1, hfine.2, Nat.le_succ _⟩
    · intro t ht
      obtain ⟨-, -, hstage, hkind, ds, hds, hdep⟩ := mem_newTasks ht
      refine (fine_of_dependent hstage (by simp [hkind]) fun d hd => ?_).skip
      rw [hdep, eq_of_mem_replicate hds] at hd
      cases hd
  · cases hpositions
    exact ⟨hb, hclosed, fun t ht => hb.fine t (hjs t ht), le_rfl⟩

/-- The left side is concatenated in the stage of the join tasks and needed once more after it. -/
lemma generated_positions {joinType : JoinType} {c : Task}
    {lefts rights joins positionLists : List Task}
    {b₃ b₄ b₅ : Builder} (hclosed : AllClosed b pending)
    (hl : Generated ctx root left b pending lefts b₁)
    (hr : Generated ctx root right (b₁.insertPipelineBreaker lefts) (pending ++ lefts) rights b₂)
    (hjs : Batch b₂ (rights ++ lefts) joins b₄)
    (hc : c ∈ lefts ∨ Batch b₂ lefts [c] b₃ ∧ ∃ t ∈ joins, tasks.SameStage t c)
    (hpositions : lateMaterializationDependencies ctx joins (b₄.insertPipelineBreaker joins) =
      (positionLists, b₅)) (hbatch : Batch b₅ (c :: positionLists) ts b')
    (hlen : ts.length = (binary id (.broadcastJoin joinType .left) left right).numTasks ctx) :
    Generated ctx root (.binary id (.broadcastJoin joinType .left) left right) b pending ts b' := by
  obtain ⟨hlefts, hle⟩ := hl.both hr hclosed
  have hstage₄ := hjs.currentStageId
  have hb₄ := hr.accounted.join perm_append_comm hjs
  have hfine : Fine b₄ c := by
    have hlefts : ∀ d ∈ lefts, Fine b₂ d := fun d hd => hr.accounted.fine d (by simp [hd])
    obtain ⟨n, rfl⟩ := hjs.skip
    rcases hc with hc | ⟨hc, -⟩
    · exact (hlefts c hc).skip
    · refine (hc.made (fun t _ hstage hkind => fine_of_dependent hstage hkind) hlefts c ?_).skip
      exact mem_singleton_self c
  -- The concatenated task is pending until the end of the stage.
  obtain ⟨hbreak, hclosed₄⟩ := (hb₄.add (forall_mem_singleton.2 hfine)).insertPipelineBreaker
    (fun t (ht : t ∈ joins) => by simp [ht]) fun o ho hstage => by
      simp only [mem_append, mem_singleton] at ho
      rcases ho with (ho | ho) | rfl
      · exact absurd (hstage.trans hstage₄) (hlefts o (mem_append_left _ ho)).ne
      · exact ⟨o, ho, .refl⟩
      · rcases hc with hc | ⟨-, t, ht, hto⟩
        · exact absurd (hstage.trans hstage₄) (hlefts o (mem_append_right _ hc)).ne
        · exact ⟨t, ht, .single hto⟩
  obtain ⟨hb₅, hclosed₅, hpositions, hle₅⟩ := hbreak.positions hclosed₄
    (fun t ht => by simp [ht]) hpositions
  rw [append_assoc] at hb₅ hclosed₅
  have hb' := hb₅.batch hbatch (forall_mem_cons.2 ⟨hb₅.fine c (by simp), hpositions⟩)
    fun u hu hstage => absurd hstage (hclosed₅ u (mem_append_right _ hu)).ne
  refine ⟨hb', ?_, by simp, by simp [isClosed], hlen⟩
  exact (hle.trans hstage₄.ge).trans ((Nat.le_succ _).trans (hle₅.trans hbatch.currentStageId.ge))

end Binary

/-- A visit keeps the invariant if the generation of the children does. -/
lemma Visits.keepsAccounted (h : Visits ctx (KeepsAccounted ctx root) r b ts b') :
    KeepsAccounted ctx root r b ts b' := by
  intro hr hord hro pending hb hbr
  cases h.shape hro with
  | read hbatch hlen =>
    rw [← append_nil pending] at hb
    refine ⟨hb.batch hbatch (by simp) (by simp), hbatch.currentStageId.ge, fun _ =>
      hbatch.currentStageId, by simp [isClosed], hlen⟩
  | @single _ child _ inputs b₁ _ _ hover hch hder =>
    have hmem : child ∈ root.subplans := by
      refine subplans_trans hr ?_
      simp [hover.subplans, self_mem_subplans]
    rw [hover.isOrdered] at hord
    rw [hover.isReadOnly] at hro
    have hbr' : child.breaks ctx → AllClosed b pending := fun h => hbr (hover.breaks h)
    have hch := hch hmem hord hro pending hb hbr'
    exact hch.over (hder hch.length) hbr
  | broadcast hsides hfst hsnd hjs hlen =>
    have hclosed := hbr rfl
    have hfst := hfst.of_side hsides.first_mem hr hord hro hb fun _ => hclosed
    obtain ⟨hb₁, hclosed₁⟩ := hfst.accounted.endStage (hclosed.mono hfst.stageId_le)
    have hsnd := hsnd.of_side hsides.swap.first_mem hr hord hro hb₁ fun _ => hclosed₁
    have hjs := hjs (ne_nil_of_numTasks hsnd.length)
    refine ⟨hsnd.accounted.join perm_append_comm hjs, ?_, by simp,
      by simp [isClosed], hlen hsnd.length⟩
    exact (hfst.both hsnd hclosed).2.trans hjs.currentStageId.ge
  | positions hl hR hjs hpositions hbatch hlen =>
    have hclosed := hbr rfl
    have hl := hl.of_side (.inl rfl) hr hord hro hb fun _ => hclosed
    obtain ⟨hb₁, hclosed₁⟩ := hl.accounted.endStage (hclosed.mono hl.stageId_le)
    have hR := hR.of_side (.inr rfl) hr hord hro hb₁ fun _ => hclosed₁
    obtain ⟨hjs, hc⟩ := hjs (ne_nil_of_numTasks hR.length)
    exact generated_positions hclosed hl hR hjs hc hpositions hbatch hlen
  | @shuffleJoin _ _ left right _ lefts b₁ rights b₂ _ _ hl hR hjs hlen =>
    have hl := hl.of_side (.inl rfl) hr hord hro hb fun h =>
      hbr (by simp [h])
    -- If the right side ends the stage, the left side has ended its own.
    have hpend : right.breaks ctx → AllClosed b₁ (pending ++ lefts) := by
      intro h
      have hclosed : left.isClosed := by
        simp only [isOrdered, Bool.and_eq_true, h] at hord
        simpa using hord.2
      refine forall_mem_append.2 ⟨?_, hl.closed hclosed⟩
      exact (hbr (by simp [h])).mono hl.stageId_le
    have hR := hR.of_side (.inr rfl) hr hord hro hl.accounted hpend
    refine ⟨hR.accounted.join .rfl hjs, ?_, fun h => ?_, by simp [isClosed], hlen⟩
    · exact (hl.stageId_le.trans hR.stageId_le).trans hjs.currentStageId.ge
    · simp only [breaks, Bool.or_eq_false_iff] at h
      rw [hjs.currentStageId, hR.stageId_eq h.2, hl.stageId_eq h.1]
  | unionAll hl hR =>
    have hclosed := hbr rfl
    have hl := hl.of_side (.inl rfl) hr hord hro hb fun _ => hclosed
    obtain ⟨hb₁, hclosed₁⟩ := hl.accounted.endStage (hclosed.mono hl.stageId_le)
    have hR := hR.of_side (.inr rfl) hr hord hro hb₁ fun _ => hclosed₁
    obtain ⟨hlefts, hle⟩ := hl.both hR hclosed
    refine ⟨by simpa using hR.accounted, hle, by simp, fun h => ?_, ?_⟩
    · exact forall_mem_append.2 ⟨(forall_mem_append.1 hlefts).2, hR.closed h⟩
    · rw [length_append, hl.length, hR.length]
      rfl

lemma keepsAccounted_generateTasks (hroot : root.IsConsistent) (r : PhysicalRelation) :
    Describes (KeepsAccounted ctx root) r (generateTasks ctx r) := by
  refine generate_induction (fun {r b ts} hcached => ?_) (fun {r b ts b'} _ hvisits => ?_) r
  · intro hr _ _ pending hb _
    refine ⟨hb.add fun t ht => (hb.cached _ ts hcached t ht).1, le_rfl, fun _ => rfl, ?_, ?_⟩
    · exact (hb.counted r hr ts hcached).2
    · exact (hb.counted r hr ts hcached).1
  · intro hr hord hro pending hb hbr
    have h := hvisits.keepsAccounted hr hord hro pending hb hbr
    refine ⟨?_, h.stageId_le, h.stageId_eq, h.closed, h.length⟩
    exact h.accounted.updateCache hroot hr (fun t ht => mem_append_right _ ht) h.length h.closed

lemma accounted_initial : Accounted ctx root .initial [] := by
  refine ⟨rfl, ?_, ?_, ?_, ?_⟩ <;> simp [initial]

/-- The task graph of an ordered plan: the tasks that are executed in a stage depend only on tasks
that are executed by then, and they all emit a result. -/
theorem isOrdered_of_build (hroot : root.IsConsistent) (hord : root.isOrdered ctx)
    (hro : root.isReadOnly) {stageRootTasks : List (List Task)}
    (hbuild : build ctx root = .ok stageRootTasks) : tasks.IsOrdered stageRootTasks ∧
      ∀ k t, tasks.Covered stageRootTasks k t → tasks.emitsResult t := by
  have hstage : ∀ k ts, stageRootTasks[k]? = some ts → tasks.IsRootList k ts :=
    fun k ts hts => isRootList_of_build hbuild hts
  obtain ⟨⟨generated, b⟩, hgen, h⟩ := bind_eq_ok hbuild
  cases h
  have hb := keepsAccounted_generateTasks hroot root hgen root.self_mem_subplans hord
    hro [] accounted_initial fun _ => by simp [AllClosed]
  obtain ⟨hb', -⟩ := hb.accounted.endStage (by simp [AllClosed])
  have hreach : ∀ {k t}, tasks.Covered (b.insertPipelineBreaker generated).stageRootTasks k t →
      ∃ r, OrderedTask (b.insertPipelineBreaker generated).stageRootTasks r ∧ r.Reaches t := by
    rintro k t ⟨r, ⟨ts, hts, hr⟩, hrt⟩
    refine ⟨r, hb'.roots ts (mem_of_getElem? hts) r hr, ?_⟩
    exact ReflTransGen.mono (fun _ _ h => h.1) r t hrt
  refine ⟨fun k t ht d hd => ?_, fun k t ht => ?_⟩
  · obtain ⟨r, hr, hrt⟩ := hreach ht
    have hk : t.stageId = k := ht.stageId hstage
    obtain ⟨hle, hlt⟩ := hr.dependent t hrt d hd
    refine ⟨hk ▸ hle, ?_⟩
    rcases hle.lt_or_eq with h | h
    · exact hlt h
    · obtain ⟨r, hr, hrt⟩ := ht
      rw [tasks_stageId, h, hk]
      exact ⟨r, hr, hrt.tail ⟨hd, h⟩⟩
  · obtain ⟨r, hr, hrt⟩ := hreach ht
    simpa [tasks] using hr.emits t hrt

end Gqe.TaskGraph
