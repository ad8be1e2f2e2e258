import Gqe.Join.Correctness
import Gqe.Join.PositionLists

/-!
# Broadcast joins of partitioned inputs

The rows that the tasks of a broadcast join produce are those of the join of the whole inputs,
however the inputs are split, if the keys of the tables of each task can be evaluated. Those of the
right input that are computed are evaluated with types that are looked up at the wrong columns.
-/

namespace Gqe.Join

open Fallible List BroadcastJoin ListJoin
open TaskGraph (BroadcastPolicy)

variable {V : Type}

/-! ### Split inputs -/

section Split

variable {α : Type} (m : Row V → Row V → Bool) (n k : Nat)

lemma joinRowsBy_flatMap_left {joinType : JoinType} (hfull : joinType ≠ .full) (xs : List α)
    (f : α → List (Row V)) (rs : List (Row V)) : joinRowsBy m n k joinType (xs.flatMap f) rs =
      xs.flatMap fun x => joinRowsBy m n k joinType (f x) rs := by
  cases joinType with
  | inner => simp [ListJoin.inner, flatMap_assoc, map_flatMap]
  | left => simp [leftOuter, flatMap_assoc, map_flatMap]
  | leftSemi => simp [semi, filter_flatMap]
  | leftAnti => simp [anti, filter_flatMap]
  | full => exact absurd rfl hfull
  | single => simp [map_flatMap]

lemma joinRowsBy_flatMap_right (ls : List (Row V)) (xs : List α) (f : α → List (Row V)) :
    (joinRowsBy m n k .inner ls (xs.flatMap f)).Perm
      (xs.flatMap fun x => joinRowsBy m n k .inner ls (f x)) := by
  simp only [joinRowsBy, ← map_flatMap]
  exact (inner_flatMap_right m ls xs f).map _

lemma rows_materialize_flat (τ : Nat → DataType) (τs : α → Nat → DataType) (xs : List α)
    (f : α → List (Row V)) (projectionIndices : List Nat) :
    (Table.materialize τ (xs.flatMap f) projectionIndices).rows =
      xs.flatMap fun x => (Table.materialize (τs x) (f x) projectionIndices).rows := by
  simp only [rows_materialize_eq]
  split_ifs
  · simp
  · rw [map_flatMap]

lemma flatMap_rows_perm {g : α → List (Row V)} {xs : List α} {tables : List (Table V)}
    (h : List.Forall₂ (fun x (t : Table V) => t.rows.Perm (g x)) xs tables) :
    (tables.flatMap (·.rows)).Perm (xs.flatMap g) := by
  induction h with
  | nil => rfl
  | cons h _ ih => exact h.append ih

lemma joinRowsBy_eq_filter {joinType : JoinType}
    (hjoin : joinType = .leftSemi ∨ joinType = .leftAnti) (ls rs : List (Row V)) :
    joinRowsBy m n k joinType ls rs = ls.filter fun l => keeps joinType (rs.any (m l)) := by
  rcases hjoin with rfl | rfl <;> rfl

end Split

variable [LinearOrder V] {J : CudfJoins V} {keys : JoinKeys V}

section Whole

variable {joinType : JoinType} {projectionIndices : List Nat} (left right : Partitions V)

/-- A join of the whole left input is done part by part. -/
lemma rows_joinBy_whole_left (t : Table V) (hfull : joinType ≠ .full) :
    (joinBy J keys joinType projectionIndices left.whole t).rows =
      left.parts.flatMap fun l => (joinBy J keys joinType projectionIndices l t).rows := by
  have hrows : left.whole.rows = left.parts.flatMap (·.rows) := rfl
  rw [joinBy, hrows, joinRowsBy_flatMap_left _ _ _ hfull,
    rows_materialize_flat _ fun l i => (joinTypes joinType l t).getD i .empty]
  apply flatMap_congr
  intro l hl
  have htys : left.whole.types = l.types := (left.types_eq l hl).symm
  have hcols : left.whole.numColumns = l.numColumns := congrArg length htys
  rw [joinBy, htys, hcols]

/-- An inner join with the whole right input is done part by part, up to the order of the rows. -/
lemma rows_joinBy_whole_right (t : Table V) :
    (joinBy J keys .inner projectionIndices t right.whole).rows.Perm
      (right.parts.flatMap fun r => (joinBy J keys .inner projectionIndices t r).rows) := by
  refine (rows_materialize_perm _ (fun i => (joinTypes .inner t right.whole).getD i .empty)
    (joinRowsBy_flatMap_right ..) _).trans (.of_eq ?_)
  rw [rows_materialize_flat _ fun r i => (joinTypes .inner t r).getD i .empty]
  apply flatMap_congr
  intro r hr
  have htys : right.whole.types = r.types := (right.types_eq r hr).symm
  have hcols : right.whole.numColumns = r.numColumns := congrArg length htys
  rw [joinBy, htys, hcols]

end Whole

/-! ### Runs of join tasks -/

section Runs

variable {task : JoinTask V} {pairs : List (Table V × Table V)}

variable {cache : Option (HashJoinImpl V)}

/-- What every task does, given the hash map that the tasks before it have left, the tasks do one
after another. -/
lemma runJoinTasks_eq_ok {β : Type} (f : β → TaskResult V) (P : Table V × Table V → β → Prop)
    (I : Option (HashJoinImpl V) → Prop) (hstep : ∀ p ∈ pairs, ∀ cache, I cache → ∃ x cache',
      task.execute J cache p.1 p.2 = .ok (f x, cache') ∧ P p x ∧ I cache') (hcache : I cache) :
    ∃ xs, runJoinTasks J task cache pairs = .ok (xs.map f) ∧ List.Forall₂ P pairs xs := by
  induction pairs generalizing cache with
  | nil => exact ⟨[], rfl, .nil⟩
  | cons p pairs ih =>
    obtain ⟨x, cache', hx, hP, hcache'⟩ := hstep p mem_cons_self cache hcache
    obtain ⟨xs, hxs, hPs⟩ := ih (fun q hq => hstep q (mem_cons_of_mem _ hq)) hcache'
    refine ⟨x :: xs, ?_, .cons hP hPs⟩
    simp [runJoinTasks, hx, hxs]

variable {results : List (TaskResult V)}

lemma exists_execute_of_run (h : runJoinTasks J task cache pairs = .ok results) :
    ∀ p ∈ pairs, ∃ cache' result, task.execute J cache' p.1 p.2 = .ok result := by
  induction pairs generalizing cache results with
  | nil => simp
  | cons p pairs ih =>
    obtain ⟨⟨result, cache'⟩, hres, h⟩ := bind_eq_ok h
    obtain ⟨rest, hrest, -⟩ := bind_eq_ok h
    intro q hq
    rcases mem_cons.1 hq with rfl | hq
    · exact ⟨cache, _, hres⟩
    · exact ih hrest q hq

end Runs

/-! ### Broadcast joins -/

/-- The relation is one of a kind that the engine broadcasts, and its condition and projection fit
its inputs. -/
structure BroadcastJoin.IsSupported (left right : Partitions V) (keys : JoinKeys V)
    (relation : BroadcastJoin V) : Prop where
  parse : parseJoinCondition {} relation.condition = .ok keys
  keys : keys.IsSupported left.types right.types
  joinType : relation.joinType = .inner ∨ relation.joinType = .left ∧ relation.policy = .right ∨
    relation.joinType = .leftSemi ∨ relation.joinType = .leftAnti
  perfectHashing : relation.joinType = .inner → relation.cacheEnabled = false →
    relation.perfectHashing = false
  projection : ∀ c ∈ relation.projectionIndices,
    c < (joinTypes relation.joinType left.whole right.whole).length

/-- The tables that each of the join tasks gets. -/
def BroadcastJoin.taskTables (left right : Partitions V) (relation : BroadcastJoin V) :
    List (Table V × Table V) :=
  match relation.policy with
  | .right => left.parts.map fun l => (l, right.whole)
  | .left => right.parts.map fun r => (left.whole, r)

section Relation

variable {relation : BroadcastJoin V} {left right : Partitions V} {C : Cudf V}
  {task : JoinTask V} {cache : Option (HashJoinImpl V)}

section Supported

variable (h : relation.IsSupported left right keys)

omit [LinearOrder V]
include h

lemma BroadcastJoin.IsSupported.ne_full : relation.joinType ≠ .full := by
  rcases h.joinType with h | ⟨h, -⟩ | h | h <;> simp [h]

lemma BroadcastJoin.IsSupported.ne_single : relation.joinType ≠ .single := by
  rcases h.joinType with h | ⟨h, -⟩ | h | h <;> simp [h]

lemma BroadcastJoin.IsSupported.projection_lt
    (hjoin : relation.joinType = .leftSemi ∨ relation.joinType = .leftAnti) :
    ∀ c ∈ relation.projectionIndices, c < left.whole.numColumns := by
  have hproj := h.projection
  rcases hjoin with hjoin | hjoin <;> rw [hjoin] at hproj <;> exact hproj

lemma BroadcastJoin.IsSupported.joinTask {side : BuildLocation}
    (hside : side = .left → relation.joinType ≠ .left) (out : Bool) :
    (relation.joinTask side out).IsSupported left.types right.types keys where
  parse := h.parse
  keys := h.keys
  ne_full := h.ne_full
  ne_single := h.ne_single
  perfectHashing hinner hcache := by
    refine h.perfectHashing hinner ?_
    by_contra henabled
    simp [BroadcastJoin.joinTask, henabled] at hcache
  buildLeft hbuild := by
    apply hside
    unfold BroadcastJoin.joinTask at hbuild
    split_ifs at hbuild
    exact Option.some.inj hbuild

end Supported

variable {l r : Table V}

/-- A hash map of a table serves all tables on the other side. -/
lemma JoinTask.CacheFor.congr {l' r' : Table V} (h : task.CacheFor C keys l r cache)
    (htys : l.types = l'.types)
    (hside : ∀ side ∈ task.hashMapCache, (side = .left → l = l') ∧ (side = .right → r = r')) :
    task.CacheFor C keys l' r' cache := by
  intro side hs impl himpl
  obtain ⟨hnulls, hbuild⟩ := h side hs impl himpl
  obtain ⟨hl, hr⟩ := hside side hs
  cases side with
  | left => exact ⟨hnulls, hl rfl ▸ hbuild⟩
  | right => exact ⟨hnulls, htys ▸ hr rfl ▸ hbuild⟩

omit [LinearOrder V] in
lemma mem_hashMapCache_joinTask {side side' : BuildLocation} {out : Bool}
    (h : side' ∈ (relation.joinTask side out).hashMapCache) : side' = side := by
  unfold joinTask at h
  split_ifs at h
  · exact (Option.some.inj h).symm
  · cases h

variable {joinType : JoinType}

omit [LinearOrder V] in
lemma joinTypes_congr {l' r' : Table V} (hl : l.types = l'.types)
    (hr : r.types = r'.types) : joinTypes joinType l r = joinTypes joinType l' r' := by
  unfold joinTypes
  rw [hl, hr]

/-- Tables of both inputs, those on the side of the hash map the whole input. -/
def ArePairs (side : BuildLocation) (left right : Partitions V) (pairs : List (Table V × Table V)) :
    Prop :=
  ∀ p ∈ pairs, p.1.types = left.types ∧ p.2.types = right.types ∧
    (side = .left → p.1 = left.whole) ∧ (side = .right → p.2 = right.whole)

omit [LinearOrder V] in
lemma findRightTypes_of_arePairs {side : BuildLocation} {pairs : List (Table V × Table V)}
    (hpairs : ArePairs side left right pairs) (h : keys.FindRightTypes left.types right.types) :
    ∀ p ∈ pairs, keys.FindRightTypes p.1.types p.2.types := by
  intro p hp
  obtain ⟨hl, hr, -⟩ := hpairs p hp
  rw [hl, hr]
  exact h

section Pairs

variable {side : BuildLocation} {pairs : List (Table V × Table V)}
  (h : relation.IsSupported left right keys) (hside : side = .left → relation.joinType ≠ .left)
  (hpairs : ArePairs side left right pairs)

include h hside hpairs

lemma runJoinTasks_of_pairs {out : Bool} {β : Type} (f : β → TaskResult V)
    (P : Table V × Table V → β → Prop) (hexec : ∀ p ∈ pairs,
      (relation.joinTask side out).IsSupported p.1.types p.2.types keys → ∀ cache,
        (relation.joinTask side out).CacheFor J.expressions keys p.1 p.2 cache → ∃ x cache',
          (relation.joinTask side out).execute J cache p.1 p.2 = .ok (f x, cache') ∧ P p x ∧
            (relation.joinTask side out).CacheFor J.expressions keys p.1 p.2 cache') :
    ∃ xs, runJoinTasks J (relation.joinTask side out) none pairs = .ok (xs.map f) ∧
      List.Forall₂ P pairs xs := by
  refine runJoinTasks_eq_ok f P
    ((relation.joinTask side out).CacheFor J.expressions keys left.whole right.whole) ?_
    fun _ _ _ => nofun
  intro p hp cache hcache
  obtain ⟨hl, hr, hleft, hright⟩ := hpairs p hp
  have hcached : ∀ side' ∈ (relation.joinTask side out).hashMapCache,
      (side' = .left → p.1 = left.whole) ∧ (side' = .right → p.2 = right.whole) := by
    intro side' hside'
    rw [mem_hashMapCache_joinTask hside']
    exact ⟨hleft, hright⟩
  obtain ⟨x, cache', hx, hP, hcache'⟩ := hexec p hp (hl ▸ hr ▸ h.joinTask hside out) cache
    (hcache.congr hl.symm fun side' hs => (hcached side' hs).imp (Eq.symm ∘ ·) (Eq.symm ∘ ·))
  exact ⟨x, cache', hx, hP, hcache'.congr hl hcached⟩

lemma exists_tables_of_pairs (hright : keys.FindRightTypes left.types right.types)
    (hkeys : ∀ p ∈ pairs, keys.AreEvaluated J.expressions p.1 p.2) :
    ∃ tables : List (Table V),
      runJoinTasks J (relation.joinTask side true) none pairs = .ok (tables.map .table) ∧
        (tables.flatMap (·.rows)).Perm (pairs.flatMap fun p =>
          (joinBy J keys relation.joinType relation.projectionIndices p.1 p.2).rows) := by
  obtain ⟨tables, htabs, hperm⟩ := runJoinTasks_of_pairs h hside hpairs TaskResult.table _
    fun p hp htask cache hcache =>
      execute_eq_table htask (findRightTypes_of_arePairs hpairs hright p hp)
      (hkeys p hp) hcache rfl (by
      obtain ⟨hl, hr, -⟩ := hpairs p hp
      rw [joinTypes_congr (show p.1.types = left.whole.types from hl)
        (show p.2.types = right.whole.types from hr)]
      exact h.projection)
  exact ⟨tables, htabs, flatMap_rows_perm hperm⟩

end Pairs

/-- Broadcasting the right table. -/
lemma run_right_eq_ok (h : relation.IsSupported left right keys) (hpol : relation.policy = .right)
    (hright : keys.FindRightTypes left.types right.types)
    (hkeys : ∀ l ∈ left.parts, keys.AreEvaluated J.expressions l right.whole) :
    ∃ tables : List (Table V), relation.run J left right = .ok (tables.map .table) ∧
      (tables.flatMap (·.rows)).Perm
        (joinBy J keys relation.joinType relation.projectionIndices left.whole
          right.whole).rows := by
  have hpairs : ArePairs .right left right (left.parts.map fun l => (l, right.whole)) :=
    forall_mem_map.2 fun l hl => ⟨left.types_eq l hl, rfl, nofun, fun _ => rfl⟩
  obtain ⟨tables, htabs, hperm⟩ := exists_tables_of_pairs h (by simp) hpairs hright
    (forall_mem_map.2 hkeys)
  refine ⟨tables, ?_, ?_⟩
  · simp only [run, h.ne_full, h.ne_single, hpol]
    exact htabs
  · rw [rows_joinBy_whole_left _ _ h.ne_full]
    rwa [flatMap_map] at hperm

/-- The parts of the right input, each with the whole left input. -/
lemma arePairs_left : ArePairs .left left right (right.parts.map fun r => (left.whole, r)) :=
  forall_mem_map.2 fun r hr => ⟨rfl, right.types_eq r hr, fun _ => rfl, nofun⟩

/-- Broadcasting the left table, for an inner join. -/
lemma run_left_inner_eq_ok (h : relation.IsSupported left right keys)
    (hpol : relation.policy = .left) (hinner : relation.joinType = .inner)
    (hright : keys.FindRightTypes left.types right.types)
    (hkeys : ∀ r ∈ right.parts, keys.AreEvaluated J.expressions left.whole r) :
    ∃ tables : List (Table V), relation.run J left right = .ok (tables.map .table) ∧
      (tables.flatMap (·.rows)).Perm
        (joinBy J keys relation.joinType relation.projectionIndices left.whole
          right.whole).rows := by
  obtain ⟨tables, htabs, hperm⟩ := exists_tables_of_pairs (J := J) h (by simp [hinner])
    arePairs_left hright (forall_mem_map.2 hkeys)
  refine ⟨tables, ?_, ?_⟩
  · have hseparate : relation.separateMaterialization = false := by
      simp [separateMaterialization, hinner]
    simp [run, hpol, hinner, hseparate, htabs]
  · rw [flatMap_map, hinner] at hperm
    rw [hinner]
    exact hperm.trans (rows_joinBy_whole_right right left.whole).symm

lemma isPositionList_of_isJoin {indices : Indices}
    (hjoin : joinType = .leftSemi ∨ joinType = .leftAnti) (h : indices.IsJoin J keys l r joinType) :
    ∃ positions, indices = .left positions ∧ IsPositionList l.numRows
      (fun i => keeps joinType (r.rows.any (keys.holds J l.types r.types (l.rows.getD i []))))
      positions := by
  have hany : ∀ i, ((range r.numRows).any fun j => keys.holdsAt J l r i j) =
      r.rows.any (keys.holds J l.types r.types (l.rows.getD i [])) :=
    fun i => any_range_getD _ r.rows []
  cases indices with
  | both => rcases hjoin with rfl | rfl <;> exact h.elim
  | left positions =>
    refine ⟨positions, rfl, ?_⟩
    rcases hjoin with rfl | rfl <;>
      exact h.trans (.of_eq (filter_congr fun i _ => by simp [keeps, hany]))

/-- Broadcasting the left table, for a semi or an anti join: the position lists are merged. -/
lemma run_left_semi_eq_ok (h : relation.IsSupported left right keys)
    (hpol : relation.policy = .left)
    (hjoin : relation.joinType = .leftSemi ∨ relation.joinType = .leftAnti)
    (hright : keys.FindRightTypes left.types right.types)
    (hkeys : ∀ r ∈ right.parts, keys.AreEvaluated J.expressions left.whole r) :
    ∃ t : Table V, relation.run J left right = .ok [.table t] ∧
      t.rows = (joinBy J keys relation.joinType relation.projectionIndices left.whole
        right.whole).rows := by
  set task := relation.joinTask .left false
  set pairs := right.parts.map fun r => (left.whole, r)
  obtain ⟨lists, hlists, hpositions⟩ := runJoinTasks_of_pairs h
    (by rcases hjoin with hjoin | hjoin <;> simp [hjoin]) arePairs_left
    (fun positions => TaskResult.positions (.left positions))
    (fun p positions => IsPositionList left.whole.numRows (fun i => keeps relation.joinType
      (p.2.rows.any (keys.holds J left.types right.types (left.whole.rows.getD i [])))) positions)
    (forall_mem_map.2 fun r hr htask cache hcache => by
      obtain ⟨indices, cache', hexec, hisJoin, hcache'⟩ :=
        execute_eq_positions htask (right.types_eq r hr ▸ hright) (hkeys r hr) hcache rfl
      obtain ⟨positions, rfl, hpositions⟩ := isPositionList_of_isJoin hjoin hisJoin
      rw [right.types_eq r hr] at hpositions
      exact ⟨positions, cache', hexec, hpositions, hcache'⟩)
  have hgroups : List.Forall₂ (fun group indices => IsPositionList left.whole.numRows (fun i =>
      keeps relation.joinType (group.any (keys.holds J left.types right.types
        (left.whole.rows.getD i [])))) indices) (right.parts.map (·.rows)) lists := by
    simp only [forall₂_map_left_iff] at hpositions ⊢
    exact hpositions
  have hmerged := materializePositions_flatten relation.joinType _ hgroups
    (h.projection_lt hjoin)
  have hrun : relation.run J left right = runJoinTasks J task none pairs >>= fun results =>
      materializeJoinFromPositionLists relation.joinType left.whole results
        relation.projectionIndices >>= fun t => .ok [.table t] := by
    rcases hjoin with hjoin | hjoin <;>
      simp [run, hpol, separateMaterialization, hjoin, task, pairs]
  generalize ht : Table.materialize left.whole.typeOf _ relation.projectionIndices = t at hmerged
  refine ⟨t, ?_, ?_⟩
  · rw [hrun, hlists]
    simp [hmerged]
  · rw [← ht, joinBy, joinRowsBy_eq_filter _ _ _ hjoin, rows_materialize_eq, rows_materialize_eq,
      ← map_getD_filter_range _ left.whole.rows []]
    rfl

lemma areEvaluated_of_run (h : relation.IsSupported left right keys) {results : List (TaskResult V)}
    (hrun : relation.run J left right = .ok results) :
    ∀ p ∈ relation.taskTables left right, keys.AreEvaluated J.expressions p.1 p.2 := by
  intro p hp
  unfold taskTables at hp
  simp only [run, h.ne_full, h.ne_single] at hrun
  cases hpol : relation.policy with
  | right =>
    simp only [hpol] at hp hrun
    obtain ⟨cache, result, hexec⟩ := exists_execute_of_run hrun p hp
    exact areEvaluated_of_execute h.parse hexec
  | left =>
    simp only [hpol] at hp hrun
    split_ifs at hrun
    all_goals
      obtain ⟨rest, htasks, -⟩ := bind_eq_ok hrun
      obtain ⟨cache, result, hexec⟩ := exists_execute_of_run htasks p hp
      exact areEvaluated_of_execute h.parse hexec

end Relation

/-! ### Computed keys -/

@[simp] def integerInput : Partitions Int where
  types := [.int64]
  parts := [⟨[.int64], [[some 1]], by simp, by simp⟩]
  nonempty := by simp
  types_eq := by simp

/-- A column of integers and one of another type, in two parts; the second part has no rows. -/
def integerAndInput (type : DataType) : Partitions Int where
  types := [.int64, type]
  parts := [⟨[.int64, type], [[some 0, some 7]], by simp, by simp⟩,
    ⟨[.int64, type], [], by simp, by simp⟩]
  nonempty := by simp
  types_eq := by simp

/-- An inner join that broadcasts the left table, with one equality. -/
def equalityJoin (right : Expr Int) : BroadcastJoin Int where
  joinType := .inner
  condition := .binaryOp .equal (.columnReference 0) right
  projectionIndices := [0, 1]
  policy := .left
  cacheEnabled := false
  perfectHashing := false

def equalityKeys (right : Expr Int) : JoinKeys Int where
  leftKeyExprs := [.columnReference 0]
  rightKeyExprs := [right]
  compareNulls := some .unequal

lemma equalityJoin_successor_isSupported (type : DataType) :
    (equalityJoin successor).IsSupported integerInput (integerAndInput type)
      (equalityKeys successor) where
  parse := rfl
  keys := {
    left := by
      simp only [equalityKeys, forall_mem_singleton]
      exact .columnReference le_rfl (by simp)
    right := by simp [equalityKeys, successor, IsOperand, integerAndInput]
    predicates := nofun }
  joinType := .inl rfl
  perfectHashing _ _ := rfl
  projection := by simp [equalityJoin, joinTypes, Partitions.whole, integerAndInput]

end Gqe.Join
