import Gqe.TaskGraph.StagePlan

/-!
# Plans whose stages are not in order

In a plan without shared relations, every shuffle join that holds tasks of the current stage while
its right side ends it leaves tasks behind: no root task of their stage needs them, and their
parents belong to a later stage.
-/

namespace Gqe.TaskGraph

open Builder Fallible PhysicalRelation Relation List Function

/-! ### New tasks -/

/-- A task and all the tasks that it needs were generated after a state of the builder, and emit a
result. -/
def New (b : Builder) (t : Task) : Prop :=
  ∀ u, t.Reaches u → b.currentTaskId ≤ u.taskId ∧ u.kind ≠ .write

/-- What was added to the builder since an earlier state is new. -/
structure Grows (b b' : Builder) : Prop extends Before b b' where
  roots : ∃ new, b'.stageRootTasks = b.stageRootTasks ++ new ∧ ∀ ts ∈ new, ∀ t ∈ ts, New b t

/-- Some task that is executed needs a task of an earlier stage that is not executed. -/
def HasGap (b : Builder) (ts : List Task) : Prop :=
  ∃ x u, (x ∈ ts ∨ ∃ us ∈ b.stageRootTasks, x ∈ us) ∧ x.Reaches u ∧
    u.stageId < b.currentStageId ∧ ¬ tasks.Covered b.stageRootTasks u.stageId u

variable {ctx : Context} {r : PhysicalRelation} {b b₁ b₂ b' : Builder} {t d : Task}
  {ts us : List Task} {n : Nat}

lemma New.mono (h : New b₁ t) (hle : b.currentTaskId ≤ b₁.currentTaskId) : New b t :=
  fun u hu => (h u hu).imp_left hle.trans

lemma new_of_dependent (hid : b.currentTaskId ≤ t.taskId) (hkind : t.kind ≠ .write)
    (h : ∀ d ∈ t.dependent, New b d) : New b t := by
  intro u hu
  rcases hu.cases with rfl | ⟨d, hd, hdu⟩
  · exact ⟨hid, hkind⟩
  · exact h d hd u hdu

namespace Grows

lemma refl (b : Builder) : Grows b b := ⟨.refl b, [], by simp, by simp⟩

section

variable (h : Grows b b₁)
include h

lemma trans (h' : Grows b₁ b₂) : Grows b b₂ := by
  obtain ⟨new, hnew, hts⟩ := h.roots
  obtain ⟨new', hnew', hts'⟩ := h'.roots
  refine ⟨h.toBefore.trans h'.toBefore, new ++ new', ?_, fun ts hmem t ht => ?_⟩
  · rw [hnew', hnew, append_assoc]
  · rcases mem_append.1 hmem with hmem | hmem
    · exact hts ts hmem t ht
    · exact (hts' ts hmem t ht).mono h.taskId

lemma skip : Grows b (b₁.skip n) := ⟨h.toBefore.trans before_skip, h.roots⟩

lemma updateCache {id : Nat} : Grows b (b₁.updateCache id ts) :=
  ⟨⟨h.taskId, h.stageId⟩, h.roots⟩

lemma insertPipelineBreaker (hts : ∀ t ∈ ts, New b t) : Grows b (b₁.insertPipelineBreaker ts) := by
  obtain ⟨new, hnew, hroots⟩ := h.roots
  refine ⟨h.toBefore.trans before_breaker,
    new ++ [ts.filter (·.stageId = b₁.currentStageId)], ?_, fun us hmem t ht => ?_⟩
  · simp [hnew]
  · rcases mem_append.1 hmem with hmem | hmem
    · exact hroots us hmem t ht
    · obtain rfl := mem_singleton.1 hmem
      exact hts t (mem_of_mem_filter ht)

end

end Grows

/-! ### Gaps -/

/-- The builder has filled the root tasks of the stages before the current one. -/
def IsFilled (b : Builder) : Prop := b.stageRootTasks.length = b.currentStageId

lemma IsFilled.insertPipelineBreaker (h : IsFilled b) : IsFilled (b.insertPipelineBreaker ts) := by
  simp only [IsFilled] at h
  simp [IsFilled, h]

def IsHanded (b : Builder) (t : Task) : Prop :=
  t.stageId = b.currentStageId ∨ ∃ us ∈ b.stageRootTasks, t ∈ us

/-- Later root tasks do not belong to the stage of the gap. -/
lemma HasGap.mono (h : HasGap b ts) (hb : IsFilled b) {new : List (List Task)}
    (hroots : b'.stageRootTasks = b.stageRootTasks ++ new)
    (hle : b.currentStageId ≤ b'.currentStageId)
    (hts : ∀ x ∈ ts, (∃ t ∈ us, t.Reaches x) ∨ ∃ us ∈ b'.stageRootTasks, x ∈ us) :
    HasGap b' us := by
  obtain ⟨x, u, hx, hxu, hlt, hnot⟩ := h
  have hcov : ¬ tasks.Covered b'.stageRootTasks u.stageId u := by
    rintro ⟨r, ⟨rs, hrs, hr⟩, hru⟩
    refine hnot ⟨r, ⟨rs, ?_, hr⟩, hru⟩
    rwa [hroots, getElem?_append_left (by rw [hb]; exact hlt)] at hrs
  have hroot : ∀ x, (∃ us ∈ b.stageRootTasks, x ∈ us) → ∃ us ∈ b'.stageRootTasks, x ∈ us := by
    rintro x ⟨rs, hrs, hx⟩
    exact ⟨rs, by rw [hroots]; exact mem_append_left _ hrs, hx⟩
  rcases hx with hx | hx
  · rcases hts x hx with ⟨t, ht, htx⟩ | hx
    · exact ⟨t, u, .inl ht, htx.trans hxu, hlt.trans_le hle, hcov⟩
    · exact ⟨x, u, .inr hx, hxu, hlt.trans_le hle, hcov⟩
  · exact ⟨x, u, .inr (hroot x hx), hxu, hlt.trans_le hle, hcov⟩

lemma exists_root_of_isHanded (ht : t ∈ ts) (h : IsHanded b t) :
    ∃ us ∈ (b.insertPipelineBreaker ts).stageRootTasks, t ∈ us := by
  rcases h with h | ⟨us, hus, ht⟩
  · refine ⟨ts.filter (·.stageId = b.currentStageId), ?_, by simp [ht, h]⟩
    simp
  · exact ⟨us, by simp [hus], ht⟩

lemma HasGap.insertPipelineBreaker (h : HasGap b ts) (hb : IsFilled b)
    (hts : ∀ t ∈ ts, IsHanded b t) : HasGap (b.insertPipelineBreaker ts) us :=
  h.mono hb rfl (Nat.le_succ _) fun x hx => .inr (exists_root_of_isHanded hx (hts x hx))

/-! ### Tasks that a builder holds -/

/-- Tasks that were generated since an earlier state, with what was added to the builder. -/
structure Held (b b' : Builder) (ts : List Task) : Prop where
  grows : Grows b b'
  filled : IsFilled b'
  new : ∀ t ∈ ts, New b t ∧ t.taskId < b'.currentTaskId
  handed : ∀ t ∈ ts, IsHanded b' t

variable {inputs : List Task}

lemma Batch.new (h : Batch b₁ inputs ts b') (hb : Grows b b₁) (hins : ∀ d ∈ inputs, New b d) :
    ∀ t ∈ ts, New b t :=
  h.made (fun _ hle _ hkind => new_of_dependent (hb.taskId.trans hle) hkind) hins

lemma Batch.held (h : Batch b₁ inputs ts b') (hb : Grows b b₁) (hfill : IsFilled b₁)
    (hins : ∀ d ∈ inputs, New b d) : Held b b' ts := by
  have hnew := h.new hb hins
  obtain ⟨n, rfl⟩ := h.skip
  exact ⟨hb.skip, hfill, fun t ht => ⟨hnew t ht, h.taskId_lt t ht⟩,
    fun t ht => .inl (h.stageId t ht)⟩

/-- A gap is passed on to the tasks that need those with the gap. -/
lemma Batch.hasGap (h : Batch b inputs ts b') (hb : IsFilled b) (hgap : HasGap b us)
    (hus : ∀ x ∈ us, x ∈ inputs) : HasGap b' ts := by
  obtain ⟨n, rfl⟩ := h.skip
  exact hgap.mono hb (append_nil _).symm le_rfl fun x hx => .inl (h.exists_reaches (hus x hx))

lemma Batch.tasksCache (h : Batch b inputs ts b') : b'.tasksCache = b.tasksCache := by
  obtain ⟨n, rfl⟩ := h.skip
  rfl

lemma Held.endStage (h : Held b b₁ ts) : Held b (b₁.insertPipelineBreaker ts) ts :=
  ⟨h.grows.insertPipelineBreaker fun t ht => (h.new t ht).1, h.filled.insertPipelineBreaker, h.new,
    fun t ht => .inr (exists_root_of_isHanded ht (h.handed t ht))⟩

lemma Chain.held (hchain : Chain b₁ us ts b') (h : Held b b₁ us) :
    Held b b' ts ∧ b'.tasksCache = b₁.tasksCache ∧ (HasGap b₁ us → HasGap b' ts) := by
  induction hchain with
  | refl => exact ⟨h, rfl, id⟩
  | batch _ hbatch ih =>
    obtain ⟨hheld, hcache, hgap⟩ := ih
    exact ⟨hbatch.held hheld.grows hheld.filled fun d hd => (hheld.new d hd).1,
      hbatch.tasksCache.trans hcache,
      fun h => hbatch.hasGap hheld.filled (hgap h) fun _ hx => hx⟩
  | endStage _ ih =>
    obtain ⟨hheld, hcache, hgap⟩ := ih
    exact ⟨hheld.endStage, hcache, fun h =>
      (hgap h).insertPipelineBreaker hheld.filled hheld.handed⟩

/-! ### Parts of a plan without shared relations -/

/-- What the generation of the tasks of a part of the plan does, if none of them was cached. -/
structure Spread (ctx : Context) (r : PhysicalRelation) (b : Builder) (ts : List Task)
    (b' : Builder) : Prop extends Held b b' ts where
  length : ts.length = r.numTasks ctx
  cache : ∀ id, (∀ s ∈ r.subplans, s.id ≠ id) → b'.tasksCache id = b.tasksCache id
  current : r.isClosed = false → ∃ t ∈ ts, t.stageId = b'.currentStageId
  breaks : r.breaks ctx → b.currentStageId < b'.currentStageId
  gap : r.isOrdered ctx = false → HasGap b' ts

/-- A plan without write relations all of whose relations are still to be generated. -/
structure IsFresh (r : PhysicalRelation) (b : Builder) : Prop where
  nodup : (r.subplans.map PhysicalRelation.id).Nodup
  isReadOnly : r.isReadOnly
  filled : IsFilled b
  none : ∀ s ∈ r.subplans, b.tasksCache s.id = none

def Spreads (ctx : Context) (r : PhysicalRelation) (b : Builder) (ts : List Task) (b' : Builder) :
    Prop :=
  IsFresh r b → Spread ctx r b ts b'

variable {child : PhysicalRelation}

lemma IsFresh.over (h : IsFresh r b) (hover : IsOver r child) : IsFresh child b := by
  obtain ⟨hnd, hro, hfill, hnone⟩ := h
  rw [hover.subplans] at hnd hnone
  exact ⟨(nodup_cons.1 hnd).2, hover.isReadOnly ▸ hro, hfill,
    fun s hs => hnone s (mem_cons_of_mem _ hs)⟩

lemma Spread.over (hch : Spread ctx child b inputs b₁) (hover : IsOver r child)
    (hder : Derives ctx r child b₁ inputs ts b') : Spread ctx r b ts b' := by
  obtain ⟨hheld, hcache, hgap⟩ := hder.chain.held hch.toHeld
  refine ⟨hheld, hder.length, fun id hid => ?_, hder.current, fun h => ?_, fun h => ?_⟩
  · rw [hcache]
    exact hch.cache id fun s hs => hid s (by simp [hover.subplans, hs])
  · obtain ⟨heq, hbreak⟩ | ⟨hlt, -⟩ := hder.stageId
    · exact (hch.breaks (hbreak ▸ h)).trans_eq heq.symm
    · exact hch.grows.stageId.trans_lt hlt
  · exact hgap (hch.gap (hover.isOrdered ▸ h))

section Binary

variable {id : Nat} {left right first second : PhysicalRelation} {op : BinaryRelation}

lemma nodup_of_areSides (hsides : AreSides left right first second)
    (h : ((binary id op left right).subplans.map PhysicalRelation.id).Nodup) :
    (first.subplans.map PhysicalRelation.id).Nodup ∧
      ∀ s ∈ first.subplans, ∀ s' ∈ second.subplans, s.id ≠ s'.id := by
  simp only [subplans, map_cons, map_append, nodup_cons, nodup_append, forall_mem_map] at h
  rcases hsides with ⟨rfl, rfl⟩ | ⟨rfl, rfl⟩
  · exact ⟨h.2.1, h.2.2.2⟩
  · exact ⟨h.2.2.1, fun s hs s' hs' => (h.2.2.2 s' hs' s hs).symm⟩

section

variable (h : IsFresh (binary id op left right) b) (hsides : AreSides left right first second)
include h hsides

lemma IsFresh.first_side : IsFresh first b := by
  refine ⟨(nodup_of_areSides hsides h.nodup).1, ?_, h.filled, fun s hs => h.none s ?_⟩
  · have hro := h.isReadOnly
    rcases hsides with ⟨rfl, rfl⟩ | ⟨rfl, rfl⟩ <;> simp_all [PhysicalRelation.isReadOnly]
  · rcases hsides with ⟨rfl, rfl⟩ | ⟨rfl, rfl⟩ <;> simp [hs]

lemma IsFresh.second_side (hfst : Spread ctx first b ts b₁) (hcache : b₂.tasksCache = b₁.tasksCache)
    (hfill : IsFilled b₂) : IsFresh second b₂ := by
  obtain ⟨hnd, hro, -, hnone⟩ := h.first_side hsides.swap
  refine ⟨hnd, hro, hfill, fun s hs => ?_⟩
  rw [hcache, hfst.cache _ fun s' hs' => (nodup_of_areSides hsides h.nodup).2 s' hs' s hs]
  exact hnone s hs

end

/-- Both sides of a relation, the stage of the first one ended before the second one. -/
structure SpreadBoth (ctx : Context) (first second : PhysicalRelation) (b : Builder)
    (ts us : List Task) (b' : Builder) : Prop extends Held b b' (ts ++ us) where
  stageId_lt : b.currentStageId < b'.currentStageId
  cache : ∀ id, (∀ s ∈ first.subplans, s.id ≠ id) → (∀ s ∈ second.subplans, s.id ≠ id) →
    b'.tasksCache id = b.tasksCache id
  gap : (first.isOrdered ctx && second.isOrdered ctx) = false → HasGap b' us
  length : us.length = second.numTasks ctx

lemma spreadBoth (hfst : Spread ctx first b ts b₁)
    (hsnd : Spread ctx second (b₁.insertPipelineBreaker ts) us b₂) :
    SpreadBoth ctx first second b ts us b₂ := by
  obtain ⟨hgrows, hfill, hnew, hroots⟩ := hfst.endStage
  refine ⟨⟨hgrows.trans hsnd.grows, hsnd.filled, forall_mem_append.2 ⟨?_, ?_⟩,
    forall_mem_append.2 ⟨fun t ht => ?_, hsnd.handed⟩⟩, ?_, fun id hid hid' => ?_,
    fun h => ?_, hsnd.length⟩
  · exact fun t ht => ⟨(hnew t ht).1, (hnew t ht).2.trans_le hsnd.grows.taskId⟩
  · exact fun t ht => ⟨(hsnd.new t ht).1.mono hgrows.taskId, (hsnd.new t ht).2⟩
  · obtain ⟨rs, hrs, htrs⟩ := exists_root_of_isHanded ht (hfst.handed t ht)
    obtain ⟨new, hnew, -⟩ := hsnd.grows.roots
    exact .inr ⟨rs, by rw [hnew]; exact mem_append_left _ hrs, htrs⟩
  · exact (Nat.lt_succ_of_le hfst.grows.stageId).trans_le hsnd.grows.stageId
  · exact (hsnd.cache id hid').trans (hfst.cache id hid)
  · rcases Bool.and_eq_false_iff.1 h with h | h
    · have hgap : HasGap (b₁.insertPipelineBreaker ts) [] :=
        (hfst.gap h).insertPipelineBreaker hfst.filled hfst.handed
      obtain ⟨new, hroots, -⟩ := hsnd.grows.roots
      exact hgap.mono hfill hroots hsnd.grows.stageId (by simp)
    · exact hsnd.gap h

variable {joinType : JoinType} {policy : BroadcastPolicy} {joins : List Task}

/-- The relations of a broadcast join or a union other than the relation itself. -/
lemma SpreadBoth.cache_binary (h : SpreadBoth ctx first second b ts us b')
    (hsides : AreSides left right first second) {id' : Nat}
    (hid : ∀ s ∈ (binary id op left right).subplans, s.id ≠ id') :
    b'.tasksCache id' = b.tasksCache id' := by
  simp only [subplans, forall_mem_cons, forall_mem_append] at hid
  rcases hsides with ⟨rfl, rfl⟩ | ⟨rfl, rfl⟩
  · exact h.cache id' hid.2.1 hid.2.2
  · exact h.cache id' hid.2.2 hid.2.1

lemma SpreadBoth.broadcast (h : SpreadBoth ctx first second b ts us b₂)
    (hsides : AreSides left right first second) (hjs : Batch b₂ (us ++ ts) joins b')
    (hlen : joins.length = (binary id (.broadcastJoin joinType policy) left right).numTasks ctx) :
    Spread ctx (.binary id (.broadcastJoin joinType policy) left right) b joins b' := by
  refine ⟨hjs.held h.grows h.filled fun t ht => ?_, hlen, fun id' hid => ?_,
    fun _ => hjs.exists_current, fun _ => h.stageId_lt.trans_eq hjs.currentStageId.symm,
    fun hord => ?_⟩
  · exact (h.new t (by simpa [or_comm] using ht)).1
  · rw [hjs.tasksCache]
    exact h.cache_binary hsides hid
  · refine hjs.hasGap h.filled (h.gap ?_) fun x hx => mem_append_left _ hx
    rcases hsides with ⟨rfl, rfl⟩ | ⟨rfl, rfl⟩
    · exact hord
    · rw [Bool.and_comm]
      exact hord

lemma Held.positions {joins : List Task} (h : Held b b₁ joins)
    (hpositions : lateMaterializationDependencies ctx joins b₁ = (ts, b')) :
    Grows b b' ∧ IsFilled b' ∧ b'.tasksCache = b₁.tasksCache ∧
      b₁.currentStageId ≤ b'.currentStageId ∧ (∀ t ∈ ts, New b t) ∧
      (HasGap b₁ [] → HasGap b' []) := by
  simp only [lateMaterializationDependencies] at hpositions
  split at hpositions
  · cases hpositions
    have hnew : ∀ t ∈ (b₁.newTasks .extractMarkJoinPositions []
        (replicate (min ctx.numRanks joins.length) [])).1, New b t := by
      intro t ht
      obtain ⟨hle, -, -, hkind, ds, hds, hdep⟩ := mem_newTasks ht
      refine new_of_dependent (h.grows.taskId.trans hle) (by simp [hkind]) fun d hd => ?_
      rw [hdep, eq_of_mem_replicate hds] at hd
      cases hd
    rw [newTasks_snd]
    exact ⟨h.grows.skip.insertPipelineBreaker hnew, IsFilled.insertPipelineBreaker h.filled, rfl,
      Nat.le_succ _, hnew, fun hgap => hgap.mono h.filled rfl (Nat.le_succ _) (by simp)⟩
  · cases hpositions
    exact ⟨h.grows, h.filled, rfl, le_rfl, fun t ht => (h.new t ht).1, fun hgap => hgap⟩

lemma SpreadBoth.positions {c : Task} {positionLists : List Task} {b₃ b₄ b₅ : Builder}
    (h : SpreadBoth ctx left right b ts us b₂) (hjs : Batch b₂ (us ++ ts) joins b₄)
    (hc : c ∈ ts ∨ Batch b₂ ts [c] b₃ ∧ ∃ t ∈ joins, tasks.SameStage t c)
    (hpositions : lateMaterializationDependencies ctx joins (b₄.insertPipelineBreaker joins) =
      (positionLists, b₅)) (hbatch : Batch b₅ (c :: positionLists) inputs b')
    (hlen : inputs.length = (binary id (.broadcastJoin joinType .left) left right).numTasks ctx) :
    Spread ctx (.binary id (.broadcastJoin joinType .left) left right) b inputs b' := by
  have hnew : ∀ t ∈ us ++ ts, New b t := fun t ht => (h.new t (by simpa [or_comm] using ht)).1
  have hheld := hjs.held h.grows h.filled hnew
  have hcnew : New b c := by
    rcases hc with hc | ⟨hc, -⟩
    · exact hnew c (mem_append_right _ hc)
    · exact hc.new h.grows (fun d hd => hnew d (mem_append_right _ hd)) c (by simp)
  obtain ⟨hb₅, hfill₅, hcache₅, hle₅, hpositions, hgap₅⟩ :=
    hheld.endStage.positions hpositions
  have hheld' := hbatch.held hb₅ hfill₅ (forall_mem_cons.2 ⟨hcnew, hpositions⟩)
  refine ⟨hheld', hlen, fun id' hid => ?_, fun _ => hbatch.exists_current, fun _ => ?_,
    fun hord => ?_⟩
  · rw [hbatch.tasksCache, hcache₅, ← h.cache_binary (.inl ⟨rfl, rfl⟩) hid, ← hjs.tasksCache]
    rfl
  · refine (h.stageId_lt.trans_eq hjs.currentStageId.symm).trans_le ((Nat.le_succ _).trans ?_)
    exact hle₅.trans hbatch.currentStageId.ge
  · -- The join tasks are root tasks, and the materialization need not depend on them.
    have hgap := hjs.hasGap h.filled (h.gap hord) fun x hx => mem_append_left _ hx
    exact hbatch.hasGap hfill₅ (hgap₅ (hgap.insertPipelineBreaker hheld.filled hheld.handed))
      (by simp)

lemma SpreadBoth.unionAll (h : SpreadBoth ctx left right b ts us b')
    (hl : ts.length = left.numTasks ctx)
    (hr : right.isClosed = false → ∃ t ∈ us, t.stageId = b'.currentStageId) :
    Spread ctx (.binary id .unionAll left right) b (ts ++ us) b' := by
  refine ⟨h.toHeld, ?_, fun id' hid => h.cache_binary (.inl ⟨rfl, rfl⟩) hid, fun hclosed => ?_,
    fun _ => h.stageId_lt, fun hord => ?_⟩
  · rw [length_append, hl, h.length]
    rfl
  · obtain ⟨t, ht, hstage⟩ := hr hclosed
    exact ⟨t, mem_append_right _ ht, hstage⟩
  · refine (h.gap hord).mono h.filled (append_nil _).symm le_rfl fun x hx => .inl ?_
    exact ⟨x, mem_append_right _ hx, .refl⟩

variable {lefts rights : List Task}

section

variable (hL : Spread ctx left b lefts b₁) (hR : Spread ctx right b₁ rights b₂)
include hL hR

/-- The tasks of the left side that belong to a stage that the right side ends are left behind. -/
lemma hasGap_of_not_closed (hbr : right.breaks ctx) (hclosed : left.isClosed = false) :
    HasGap b₂ lefts := by
  obtain ⟨l, hl, hstage⟩ := hL.current hclosed
  refine ⟨l, l, .inl hl, .refl, hstage.trans_lt (hR.breaks hbr), ?_⟩
  rintro ⟨r, ⟨rs, hrs, hr⟩, hrl⟩
  -- The root tasks of this stage were generated after the left side.
  obtain ⟨new, hnew, hroots⟩ := hR.grows.roots
  rw [hnew, hstage, ← hL.filled, getElem?_append_right le_rfl] at hrs
  have hreach : r.Reaches l := ReflTransGen.mono (fun _ _ h => h.1) r l hrl
  have hle := (hroots rs (mem_of_getElem? hrs) r hr l hreach).1
  exact absurd (hL.new l hl).2 hle.not_gt

lemma spread_shuffleJoin (hjs : Batch b₂ (lefts ++ rights) joins b')
    (hlen : joins.length = ctx.numShufflePartitions) :
    Spread ctx (.binary id (.shuffleJoin joinType) left right) b joins b' := by
  have hnew : ∀ t ∈ lefts ++ rights, New b t := forall_mem_append.2
    ⟨fun t ht => (hL.new t ht).1, fun t ht => (hR.new t ht).1.mono hL.grows.taskId⟩
  refine ⟨hjs.held (hL.grows.trans hR.grows) hR.filled hnew, hlen,
    fun id' hid => ?_, fun _ => hjs.exists_current, fun hbr => ?_, fun hord => ?_⟩
  · simp only [subplans, forall_mem_cons, forall_mem_append] at hid
    rw [hjs.tasksCache, hR.cache id' hid.2.2, hL.cache id' hid.2.1]
  · simp only [breaks, Bool.or_eq_true] at hbr
    rw [hjs.currentStageId]
    rcases hbr with h | h
    · exact (hL.breaks h).trans_le hR.grows.stageId
    · exact hL.grows.stageId.trans_lt (hR.breaks h)
  · by_cases hr : right.isOrdered ctx = false
    · exact hjs.hasGap hR.filled (hR.gap hr) fun x hx => mem_append_right _ hx
    have hgap : HasGap b₂ lefts := by
      by_cases hl : left.isOrdered ctx = false
      · obtain ⟨new, hnew, -⟩ := hR.grows.roots
        exact (hL.gap hl).mono hL.filled hnew hR.grows.stageId
          fun x hx => .inl ⟨x, hx, .refl⟩
      · apply hasGap_of_not_closed hL hR
        all_goals simp_all [isOrdered]
    exact hjs.hasGap hR.filled hgap fun x hx => mem_append_left _ hx

end

end Binary

/-! ### The whole plan -/

lemma Visits.spreads (h : Visits ctx (Spreads ctx) r b ts b') : Spreads ctx r b ts b' := by
  intro hfresh
  cases h.shape hfresh.isReadOnly with
  | read hbatch hlen =>
    refine ⟨hbatch.held (.refl b) hfresh.filled (by simp), hlen, fun _ _ => ?_,
      fun _ => hbatch.exists_current, by simp, by simp [isOrdered]⟩
    rw [hbatch.tasksCache]
  | single hover hch hder =>
    have hch := hch (hfresh.over hover)
    exact hch.over hover (hder hch.length)
  | broadcast hsides hfst hsnd hjs hlen =>
    have hfst := hfst (hfresh.first_side hsides)
    have hsnd := hsnd (hfresh.second_side hsides hfst rfl hfst.endStage.filled)
    exact (spreadBoth hfst hsnd).broadcast hsides
      (hjs (ne_nil_of_numTasks hsnd.length)) (hlen hsnd.length)
  | positions hl hr hjs hpositions hbatch hlen =>
    have hl := hl (hfresh.first_side (.inl ⟨rfl, rfl⟩))
    have hr := hr (hfresh.second_side (.inl ⟨rfl, rfl⟩) hl rfl hl.endStage.filled)
    obtain ⟨hjs, hc⟩ := hjs (ne_nil_of_numTasks hr.length)
    exact (spreadBoth hl hr).positions hjs hc hpositions hbatch hlen
  | shuffleJoin hl hr hjs hlen =>
    have hl := hl (hfresh.first_side (.inl ⟨rfl, rfl⟩))
    have hr := hr (hfresh.second_side (.inl ⟨rfl, rfl⟩) hl rfl hl.filled)
    exact spread_shuffleJoin hl hr hjs hlen
  | unionAll hl hr =>
    have hl := hl (hfresh.first_side (.inl ⟨rfl, rfl⟩))
    have hr := hr (hfresh.second_side (.inl ⟨rfl, rfl⟩) hl rfl hl.endStage.filled)
    exact (spreadBoth hl hr).unionAll hl.length hr.current

lemma spreads_generateTasks (r : PhysicalRelation) :
    Describes (Spreads ctx) r (generateTasks ctx r) := by
  refine generate_induction (fun {r b ts} hcached => ?_) (fun {r b ts b'} _ hvisits => ?_) r
  · intro hfresh
    rw [hfresh.none r r.self_mem_subplans] at hcached
    cases hcached
  · intro hfresh
    have h := hvisits.spreads hfresh
    refine ⟨⟨h.grows.updateCache, h.filled, h.new, h.handed⟩, h.length, fun id hid => ?_, h.current,
      h.breaks, h.gap⟩
    simp only [updateCache]
    rw [update_of_ne (hid r r.self_mem_subplans).symm]
    exact h.cache id hid

open Executor

variable {root : PhysicalRelation} {stageRootTasks : List (List Task)}

/-- The stages of a plan without shared relations are in order only if the plan is ordered. -/
lemma isOrdered_of_nodup (hnd : (root.subplans.map PhysicalRelation.id).Nodup)
    (hro : root.isReadOnly) (hbuild : build ctx root = .ok stageRootTasks) :
    (∀ k t, tasks.Covered stageRootTasks k t → tasks.emitsResult t) ∧
      (tasks.IsOrdered stageRootTasks → root.isOrdered ctx) := by
  have hstage : ∀ k ts, stageRootTasks[k]? = some ts → tasks.IsRootList k ts :=
    fun k ts hts => isRootList_of_build hbuild hts
  obtain ⟨⟨generated, b⟩, hgen, h⟩ := bind_eq_ok hbuild
  cases h
  have hspread := spreads_generateTasks root hgen ⟨hnd, hro, rfl, fun _ _ => rfl⟩
  have hgrows := hspread.endStage.grows
  refine ⟨?_, fun hord => ?_⟩
  · rintro k t ⟨r, ⟨ts, hts, hr⟩, hrt⟩
    obtain ⟨new, hnew, hroots⟩ := hgrows.roots
    rw [hnew] at hts
    have hreach : r.Reaches t := ReflTransGen.mono (fun _ _ h => h.1) r t hrt
    have hkind := (hroots ts (mem_of_getElem? hts) r hr t hreach).2
    simpa [tasks] using hkind
  · by_contra hnot
    obtain ⟨x, u, hx, hxu, -, hcov⟩ : HasGap (b.insertPipelineBreaker generated) [] :=
      (hspread.gap (Bool.eq_false_iff.2 hnot)).insertPipelineBreaker hspread.filled hspread.handed
    obtain ⟨ts, hts, hx⟩ := hx.resolve_left not_mem_nil
    obtain ⟨k, hk⟩ := getElem?_of_mem hts
    -- What an executed task needs is executed, so there is no gap.
    have hall : ∀ v, x.Reaches v → tasks.Covered (b.insertPipelineBreaker generated).stageRootTasks
        v.stageId v := by
      intro v hv
      induction hv with
      | refl =>
        rw [(hstage k ts hk).stageId x hx |>.symm] at hk
        exact ⟨x, ⟨ts, hk, hx⟩, .refl⟩
      | tail _ hd ih => exact (hord _ _ ih _ hd).2
    exact hcov (hall u hxu)

/-- The execution of an ordered plan on a single GPU raises no stage error, whatever its relations
share. A plan without shared relations whose execution raises none is ordered. -/
theorem not_raisesStageError_iff_isOrdered (hroot : root.IsConsistent) (hreadOnly : root.isReadOnly)
    (hbuild : build ctx root = .ok stageRootTasks) :
    (root.isOrdered ctx → ∀ maxNumWorkers > 0, ∀ p : Process maxNumWorkers Task,
      Process.Runs tasks false (fun _ => true) stageRootTasks .initial p → ¬ p.RaisesStageError) ∧
    ((root.subplans.map PhysicalRelation.id).Nodup →
      (∀ maxNumWorkers > 0, ∀ p : Process maxNumWorkers Task,
        Process.Runs tasks false (fun _ => true) stageRootTasks .initial p →
          ¬ p.RaisesStageError) → root.isOrdered ctx) := by
  have hroots : ∀ k ts, stageRootTasks[k]? = some ts → tasks.IsRootList k ts :=
    fun k ts hts => isRootList_of_build hbuild hts
  constructor
  · intro hordered maxNumWorkers hpos p hruns
    obtain ⟨hstages, hemits⟩ := isOrdered_of_build hroot hordered hreadOnly hbuild
    exact not_raisesStageError_of_isOrdered hpos hroots hemits hstages hruns
  · intro hnodup hsafe
    obtain ⟨hemits, hordered⟩ := isOrdered_of_nodup hnodup hreadOnly hbuild
    exact hordered (isOrdered_of_not_raisesStageError hemits (hsafe 1 Nat.one_pos) hroots)

/-! ### Shuffle joins -/

def shuffleJoinOfTwo : PhysicalRelation :=
  .binary 4 (.shuffleJoin .inner) (.unary 1 .shuffle (.read 0 "a"))
    (.unary 3 .shuffle (.read 2 "b"))

def partitionTask (taskId stageId : Nat) : Task :=
  .mk (taskId + 1) stageId .partition [.mk taskId stageId .read [] []] []

def innerJoinTask (partitionIdx : Nat) : Task :=
  .mk (6 + 3 * partitionIdx) 2 .join
    [.mk (4 + 3 * partitionIdx) 2 (.partitionMerge partitionIdx) [partitionTask 0 0] [],
      .mk (5 + 3 * partitionIdx) 2 (.partitionMerge partitionIdx) [partitionTask 2 1] []] []

theorem not_raisesStageError_shuffleJoinOfTwo : build onePartition shuffleJoinOfTwo =
      .ok [[partitionTask 0 0], [partitionTask 2 1], [innerJoinTask 0, innerJoinTask 1]] ∧
    ∀ maxNumWorkers > 0, ∀ p : Process maxNumWorkers Task, Process.Runs tasks false (fun _ => true)
        [[partitionTask 0 0], [partitionTask 2 1], [innerJoinTask 0, innerJoinTask 1]] .initial p →
      ¬ p.RaisesStageError := by
  have hbuild : build onePartition shuffleJoinOfTwo =
    .ok [[partitionTask 0 0], [partitionTask 2 1], [innerJoinTask 0, innerJoinTask 1]] := rfl
  exact ⟨hbuild, (not_raisesStageError_iff_isOrdered (by decide) rfl hbuild).1 rfl⟩

/-- A shuffle join whose left side is partitioned by its own shuffle join. -/
def shuffleJoinOfThree : PhysicalRelation :=
  .binary 7 (.shuffleJoin .inner) shuffleJoinOfTwo (.unary 6 .shuffle (.read 5 "c"))

def outerJoinTask (partitionIdx : Nat) : Task :=
  .mk (13 + 2 * partitionIdx) 3 .join
    [innerJoinTask partitionIdx,
      .mk (12 + 2 * partitionIdx) 3 (.partitionMerge partitionIdx) [partitionTask 10 2] []] []

/-- The inner join tasks are no root tasks of their stage: the right side has ended it. -/
def shuffleJoinOfThreeTasks : List (List Task) :=
  [[partitionTask 0 0], [partitionTask 2 1], [partitionTask 10 2],
    [outerJoinTask 0, outerJoinTask 1]]

lemma exists_runs_partition {p : Process 1 Task} {status : Task → Status} {entered : List Task}
    {n k : Nat} (hp : Process.Runs tasks false (fun _ => true) shuffleJoinOfThreeTasks p
      ⟨⟨status, fun _ => .idle, entered⟩, k⟩)
    (hroots : shuffleJoinOfThreeTasks[k]? = some [partitionTask n k])
    (hstat : ∀ t : Task, k ≤ t.stageId → status t = .notStarted) :
    ∃ status' entered', Process.Runs tasks false (fun _ => true) shuffleJoinOfThreeTasks p
      ⟨⟨status', fun _ => .idle, entered'⟩, k + 1⟩ ∧
      (∀ t : Task, k + 1 ≤ t.stageId → status' t = .notStarted) ∧
      ∀ t : Task, t ≠ .mk n k .read [] [] → t ≠ partitionTask n k → status' t = status t := by
  have hstart : Process.Runs tasks false (fun _ => true) shuffleJoinOfThreeTasks p
      ⟨⟨status, fun _ => ⟨[partitionTask n k], [], .running⟩, entered⟩, k + 1⟩ :=
    hp.tail (.nextStage_single hroots rfl)
  have hclaim := (hstart.tail (.single .start)).tail (.single (.claim (hstat _ le_rfl) rfl))
  have hframe : ∀ t : Task, t ≠ .mk n k .read [] [] → t ≠ partitionTask n k →
      update (update (update status (.mk n k .read [] []) .inProgress)
        (.mk n k .read [] []) .finished) (partitionTask n k) .finished t = status t := by
    intro t hread hpartition
    simp [hread, hpartition]
  refine ⟨_, _, (hclaim.tail (.single .executed)).tail (.single .executed), fun t ht => ?_, hframe⟩
  refine (hframe t ?_ ?_).trans (hstat t (Nat.le_of_succ_le ht))
  · rintro rfl
    simp at ht
  · rintro rfl
    simp [partitionTask] at ht

/-- The first task of the last stage depends on a task of the stage before that was not executed. -/
theorem raisesStageError_shuffleJoinOfThree :
    shuffleJoinOfThree.IsConsistent ∧ shuffleJoinOfThree.isReadOnly ∧
    build onePartition shuffleJoinOfThree = .ok shuffleJoinOfThreeTasks ∧ ∃ p : Process 1 Task,
      Process.Runs tasks false (fun _ => true) shuffleJoinOfThreeTasks .initial p ∧
      (p.state.workers 0).control = .throwing .previousStageNotExecuted := by
  refine ⟨by decide, rfl, rfl, ?_⟩
  obtain ⟨status₁, entered₁, hruns₁, hstatus₁, -⟩ :=
    exists_runs_partition (k := 0) .refl rfl fun _ _ => rfl
  obtain ⟨status₂, entered₂, hruns₂, hstatus₂, -⟩ := exists_runs_partition hruns₁ rfl hstatus₁
  obtain ⟨status₃, entered₃, hruns₃, -, hframe₃⟩ := exists_runs_partition hruns₂ rfl hstatus₂
  have hinner : status₃ (innerJoinTask 0) = .notStarted :=
    (hframe₃ _ (by decide) (by decide)).trans (hstatus₂ _ le_rfl)
  have hstart := hruns₃.tail (.nextStage_single rfl rfl)
  exact ⟨_, (hstart.tail (.single .start)).tail
    (.single (.previousNotExecuted hinner (by decide) rfl)), rfl⟩

end Gqe.TaskGraph
