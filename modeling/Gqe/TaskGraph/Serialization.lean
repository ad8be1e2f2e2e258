import Gqe.TaskGraph.Roots

/-!
# Serialized plans

`serialize_physical_plan` and `deserialize_physical_plan` (`rpc/serialization`) send a plan to
another process as a tree. A relation that is used twice is written twice and comes back as two
relations, at addresses of their own, and the builder generates tasks for each of them.
-/

namespace Gqe.TaskGraph

open List

/-! ### The codec -/

/-- `proto::PhysicalRelation`: a physical plan without the addresses. -/
inductive ProtoRelation where
  | read (tableName : String)
  | readIn (tableName : String) (subquery : ProtoRelation)
  | unary (op : UnaryRelation) (child : ProtoRelation)
  | binary (op : BinaryRelation) (left right : ProtoRelation)
  deriving DecidableEq

def serializePhysicalPlan : PhysicalRelation → ProtoRelation
  | .read _ tableName => .read tableName
  | .readIn _ tableName subquery => .readIn tableName (serializePhysicalPlan subquery)
  | .unary _ op child => .unary op (serializePhysicalPlan child)
  | .binary _ op left right => .binary op (serializePhysicalPlan left) (serializePhysicalPlan right)

/-- `deserialize_physical_plan`, with the next address that is free before and after. Every relation
is allocated after its children. -/
def deserializePhysicalPlan : ProtoRelation → Nat → PhysicalRelation × Nat
  | .read tableName, next => (.read next tableName, next + 1)
  | .readIn tableName subquery, next =>
    let (subquery, next) := deserializePhysicalPlan subquery next
    (.readIn next tableName subquery, next + 1)
  | .unary op child, next =>
    let (child, next) := deserializePhysicalPlan child next
    (.unary next op child, next + 1)
  | .binary op left right, next =>
    let (left, next) := deserializePhysicalPlan left next
    let (right, next) := deserializePhysicalPlan right next
    (.binary next op left right, next + 1)

/-! ### Addresses -/

def PhysicalRelation.ids : PhysicalRelation → List Nat
  | read id _ => [id]
  | readIn id _ subquery => id :: subquery.ids
  | unary id _ child => id :: child.ids
  | binary id _ left right => id :: left.ids ++ right.ids

lemma not_mem_ids_binary {id id' : Nat} {op : BinaryRelation} {left right : PhysicalRelation}
    (h : id ∉ (PhysicalRelation.binary id' op left right).ids) :
    id ∉ left.ids ∧ id ∉ right.ids := by
  rw [PhysicalRelation.ids, cons_append, mem_cons, mem_append] at h
  push Not at h
  exact h.2

lemma lt_deserialize (pb : ProtoRelation) (next : Nat) :
    next < (deserializePhysicalPlan pb next).2 := by
  induction pb generalizing next with
  | read tableName => exact Nat.lt_succ_self next
  | readIn tableName subquery ih => exact Nat.lt_succ_of_lt (ih next)
  | unary op child ih => exact Nat.lt_succ_of_lt (ih next)
  | binary op left right ihl ihr => exact Nat.lt_succ_of_lt ((ihl next).trans (ihr _))

/-- The addresses of a deserialized plan are new. -/
lemma mem_ids_deserialize {pb : ProtoRelation} {next id : Nat}
    (h : id ∈ (deserializePhysicalPlan pb next).1.ids) :
    next ≤ id ∧ id < (deserializePhysicalPlan pb next).2 := by
  induction pb generalizing next with
  | read tableName =>
    obtain rfl := mem_singleton.1 h
    exact ⟨le_rfl, Nat.lt_succ_self _⟩
  | readIn tableName child ih | unary op child ih =>
    rcases mem_cons.1 h with rfl | h
    · exact ⟨(lt_deserialize child next).le, Nat.lt_succ_self _⟩
    · exact ⟨(ih h).1, Nat.lt_succ_of_lt (ih h).2⟩
  | binary op left right ihl ihr =>
    have hl := lt_deserialize left next
    have hr := lt_deserialize right (deserializePhysicalPlan left next).2
    rcases mem_cons.1 h with rfl | h
    · exact ⟨(hl.trans hr).le, Nat.lt_succ_self _⟩
    · rcases mem_append.1 h with h | h
      · exact ⟨(ihl h).1, Nat.lt_succ_of_lt ((ihl h).2.trans hr)⟩
      · exact ⟨hl.le.trans (ihr h).1, Nat.lt_succ_of_lt (ihr h).2⟩

/-! ### The cache of the builder -/

section Cache

open Builder

variable {ctx : Context} {b b' : Builder} {tasks : List Task}

lemma tasksCache_newTasks {kind : TaskKind} {subqueries : List Task}
    {dependencies : List (List Task)} (h : b.newTasks kind subqueries dependencies = (tasks, b')) :
    b'.tasksCache = b.tasksCache := by
  obtain rfl : (b.newTasks kind subqueries dependencies).2 = b' := congrArg Prod.snd h
  rw [newTasks_snd, skip_tasksCache]

lemma cache_concatenate {inputs : List Task} {isPipelineBreaker : Bool} {task : Task}
    (h : b.concatenate inputs isPipelineBreaker = (task, b')) : b'.tasksCache = b.tasksCache := by
  rcases concatenate_cases inputs isPipelineBreaker b with ⟨t, -, heq⟩ | ⟨-, heq⟩
  · cases heq.symm.trans h
    rfl
  · cases heq.symm.trans h
    cases isPipelineBreaker <;> rfl

lemma cache_concatenated {kind : TaskKind} {inputs : List Task}
    (h : visitConcatenated kind inputs b = (tasks, b')) : b'.tasksCache = b.tasksCache := by
  rcases hconc : b.concatenate inputs true with ⟨task, b₁⟩
  simp only [visitConcatenated, hconc] at h
  rw [tasksCache_newTasks h, cache_concatenate hconc]

lemma tasksCache_positions {joins : List Task}
    (h : lateMaterializationDependencies ctx joins b = (tasks, b')) :
    b'.tasksCache = b.tasksCache := by
  simp only [lateMaterializationDependencies] at h
  split at h
  · rcases hext : b.newTasks .extractMarkJoinPositions []
      (List.replicate (min ctx.numRanks joins.length) []) with ⟨extracts, b₁⟩
    rw [hext] at h
    cases h
    have hcache : b₁.tasksCache = b.tasksCache := tasksCache_newTasks hext
    exact hcache
  · cases h
    rfl

/-- The generation of tasks for a plan leaves the tasks of all other relations as they are. -/
def KeepsCache (r : PhysicalRelation) (b : Builder) (_ : List Task) (b' : Builder) : Prop :=
  ∀ id, id ∉ r.ids → b'.tasksCache id = b.tasksCache id

lemma Visits.keepsCache {r : PhysicalRelation} (h : Visits ctx KeepsCache r b tasks b') :
    KeepsCache r b tasks b' := by
  intro id hid
  cases h with
  | read hview => rfl
  | readIn hview hsub hq =>
    rw [skip_tasksCache, cache_concatenate hq]
    exact hsub id (mt (mem_cons_of_mem _) hid)
  | each hop hch htasks =>
    rw [tasksCache_newTasks htasks]
    exact hch id (mt (mem_cons_of_mem _) hid)
  | concatenated hop hch htasks =>
    rw [cache_concatenated htasks]
    exact hch id (mt (mem_cons_of_mem _) hid)
  | aggregate hch hfsts hsnds htasks =>
    rw [tasksCache_newTasks htasks, cache_concatenated hsnds, tasksCache_newTasks hfsts]
    exact hch id (mt (mem_cons_of_mem _) hid)
  | shuffle hch htasks =>
    rw [insertPipelineBreaker, tasksCache_newTasks htasks]
    exact hch id (mt (mem_cons_of_mem _) hid)
  | write hch => exact hch id (mt (mem_cons_of_mem _) hid)
  | writeConcatenated hch hin =>
    rw [skip_tasksCache, cache_concatenate hin]
    exact hch id (mt (mem_cons_of_mem _) hid)
  | broadcastRight hr hl hconc hjs =>
    obtain ⟨hidl, hidr⟩ := not_mem_ids_binary hid
    rw [tasksCache_newTasks hjs, cache_concatenate hconc, hl id hidl]
    exact hr id hidr
  | broadcastLeft hl hr hconc hjs =>
    obtain ⟨hidl, hidr⟩ := not_mem_ids_binary hid
    rw [tasksCache_newTasks hjs, cache_concatenate hconc, hr id hidr]
    exact hl id hidl
  | broadcastLeftPositions hjoinType hl hr hconc hjs hpositions htasks =>
    obtain ⟨hidl, hidr⟩ := not_mem_ids_binary hid
    rw [tasksCache_newTasks htasks, tasksCache_positions hpositions,
      insertPipelineBreaker, tasksCache_newTasks hjs, cache_concatenate hconc, hr id hidr]
    exact hl id hidl
  | shuffleJoin hl hr hvl hvr hjs =>
    obtain ⟨hidl, hidr⟩ := not_mem_ids_binary hid
    obtain ⟨n, rfl⟩ := (shuffleJoinTasks_spec hjs).1
    rw [skip_tasksCache, hr id hidr]
    exact hl id hidl
  | unionAll hl hr =>
    obtain ⟨hidl, hidr⟩ := not_mem_ids_binary hid
    rw [hr id hidr]
    exact hl id hidl

theorem generate_keepsCache (r : PhysicalRelation)
    (h : generateTasks ctx r b = .ok (tasks, b')) : KeepsCache r b tasks b' := by
  refine generate_induction (fun _ _ _ => rfl) ?_ r h
  intro r b tasks b' _ hvisits id hid
  have hne : id ≠ r.id := fun heq => hid (heq ▸ by cases r <;> exact mem_cons_self)
  exact (Function.update_of_ne hne _ _).trans (hvisits.keepsCache id hid)

end Cache

end Gqe.TaskGraph
