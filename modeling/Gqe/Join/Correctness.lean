import Gqe.Join.Keys

/-!
# What a join task computes

A task with keys that can be evaluated joins its two tables: first as positions, by every path and
with every hash map that was built from the same keys, then as rows.
-/

namespace Gqe.Join

open Fallible List ListJoin JoinCall Table

variable {V : Type} [LinearOrder V]

/-! ### Matching rows -/

namespace JoinKeys

@[simp] def keysHold (C : Cudf V) (leftTypes rightTypes : List DataType) (keys : JoinKeys V)
    (l r : Row V) : Bool :=
  match keys.compareNulls with
  | none => true
  | some compareNulls => keysEqual compareNulls (keyOf C leftTypes 0 keys.leftKeyExprs l)
      (keyOf C rightTypes leftTypes.length keys.rightKeyExprs r)

@[simp] def predicatesHold (J : CudfJoins V) (leftTypes : List DataType) (keys : JoinKeys V)
    (l r : Row V) : Bool :=
  match keys.nonEqualityConditions with
  | [] => true
  | predicate :: predicates =>
    match parsePredicates leftTypes.length predicate predicates with
    | .ok ast => J.isTrue ast l r
    | .error _ => false

/-- Two rows match by a parsed condition. -/
def holds (J : CudfJoins V) (leftTypes rightTypes : List DataType) (keys : JoinKeys V)
    (l r : Row V) : Bool :=
  keys.keysHold J.expressions leftTypes rightTypes l r && keys.predicatesHold J leftTypes l r

end JoinKeys

variable {J : CudfJoins V} {condition : Expr V} {keys : JoinKeys V}

variable {leftTypes rightTypes : List DataType}

lemma JoinKeys.keysHold_iff {C : Cudf V} {l r : Row V}
    (hleft : ∀ e ∈ keys.leftKeyExprs, ∀ i ∈ e.columns, i < leftTypes.length)
    (hright : ∀ e ∈ keys.rightKeyExprs, ∀ i ∈ e.columns, leftTypes.length ≤ i)
    (hl : l.length = leftTypes.length) : keys.keysHold C leftTypes rightTypes l r ↔
      ∀ c ∈ keys.equalities, c.IsTrue C ((leftTypes ++ rightTypes).getD · .empty) (l ++ r) := by
  rw [keysHold]
  cases hnulls : keys.compareNulls with
  | none => simp [equalities, hnulls]
  | some compareNulls => simpa only [equalities, hnulls] using keysEqual_iff hleft hright hl

/-! ### Positions -/

@[simp] def JoinKeys.holdsAt (J : CudfJoins V) (keys : JoinKeys V)
    (left right : Table V) (i j : Nat) : Bool :=
  keys.holds J left.types right.types (left.rows.getD i []) (right.rows.getD j [])

/-- The positions of the rows of a join of the rows at some positions. -/
def Indices.IsJoinOf (m : Nat → Nat → Bool) (ls rs : List Nat) : JoinType → Indices → Prop
  | .inner, .both indices => indices.Perm ((ListJoin.inner m ls rs).map (Prod.map some some))
  | .left, .both indices => indices.Perm ((leftOuter m ls rs).map (Prod.map some id))
  | .full, .both indices => indices.Perm (fullOuter m ls rs)
  | .leftSemi, .left indices => indices.Perm (semi m ls rs)
  | .leftAnti, .left indices => indices.Perm (anti m ls rs)
  | _, _ => False

variable {indices : Indices}

lemma Indices.IsJoinOf.congr {m m' : Nat → Nat → Bool} {ls rs : List Nat} {joinType : JoinType}
    (h : indices.IsJoinOf m ls rs joinType)
    (hm : ∀ i ∈ ls, ∀ j ∈ rs, m i j = m' i j) : indices.IsJoinOf m' ls rs joinType := by
  cases joinType <;> cases indices <;> simp only [Indices.IsJoinOf] at h ⊢
  · rwa [← inner_congr hm]
  · rwa [← leftOuter_congr hm]
  · rwa [← semi_congr hm]
  · rwa [← anti_congr hm]
  · rwa [← fullOuter_congr hm]

/-- The positions of the rows of the join of two tables. -/
abbrev Indices.IsJoin (J : CudfJoins V) (keys : JoinKeys V) (left right : Table V)
    (joinType : JoinType) (indices : Indices) : Prop :=
  indices.IsJoinOf (keys.holdsAt J left right) (.range left.numRows) (.range right.numRows) joinType

/-- The call is one for the rows of two tables. -/
structure JoinCall.IsFor (J : CudfJoins V) (keys : JoinKeys V) (left right : Table V)
    (call : JoinCall V) : Prop where
  numLeft : call.numLeft = left.numRows
  numRight : call.numRight = right.numRows
  holds : ∀ i ∈ range left.numRows, ∀ j ∈ range right.numRows,
    call.holds J.isTrue i j = keys.holdsAt J left right i j

variable {left right : Table V} {joinType : JoinType}

lemma JoinCall.IsFor.isJoin {call : JoinCall V} (h : call.IsFor J keys left right)
    (hidxs : indices.IsJoinOf (fun i j => call.holds J.isTrue i j)
      (.range call.numLeft) (.range call.numRight) joinType) :
    indices.IsJoin J keys left right joinType := by
  rw [h.numLeft, h.numRight] at hidxs
  exact hidxs.congr h.holds

lemma callIndices_eq_ok {call : JoinCall V} (hcall : call.IsFor J keys left right)
    (hfull : joinType ≠ .full) (hsingle : joinType ≠ .single) (unknown : String) :
    ∃ indices, callIndices J call unknown joinType = .ok indices ∧
      indices.IsJoin J keys left right joinType := by
  cases joinType with
  | inner => exact ⟨_, rfl, hcall.isJoin ((J.innerJoin_perm call).map _)⟩
  | left => exact ⟨_, rfl, hcall.isJoin ((J.leftJoin_perm call).map _)⟩
  | leftSemi => exact ⟨_, rfl, hcall.isJoin (J.semiJoin_perm call)⟩
  | leftAnti => exact ⟨_, rfl, hcall.isJoin (J.antiJoin_perm call)⟩
  | full => exact absurd rfl hfull
  | single => exact absurd rfl hsingle

lemma cellsEqual_comm (compareNulls : NullEquality) (a b : Option V) :
    cellsEqual compareNulls a b = cellsEqual compareNulls b a := by
  cases compareNulls <;> cases a <;> cases b <;> simp [cellsEqual, eq_comm]

lemma keysEqual_comm (compareNulls : NullEquality) (l r : Row V) :
    keysEqual compareNulls l r = keysEqual compareNulls r l := by
  induction l generalizing r with
  | nil => simp [keysEqual]
  | cons a l ih =>
    cases r with
    | nil => simp [keysEqual]
    | cons b r =>
      simp only [keysEqual] at ih
      simp [keysEqual, ih, cellsEqual_comm compareNulls a b]

section Calls

variable {leftKeys rightKeys : KeyTable V} {compareNulls : NullEquality}
  (hleft : leftKeys.IsFor J.expressions left 0 keys.leftKeyExprs)
  (hright : rightKeys.IsFor J.expressions right left.types.length keys.rightKeyExprs)
  (hnulls : keys.compareNulls = some compareNulls) (hpredicates : keys.nonEqualityConditions = [])

include hleft hright hnulls hpredicates

lemma isFor_equality (cached : Bool) :
    (equality cached leftKeys rightKeys compareNulls).IsFor J keys left right where
  numLeft := hleft.length_rows
  numRight := hright.length_rows
  holds i hi j hj := by
    rw [holds, hleft.getD_rows hi, hright.getD_rows hj]
    simp [JoinKeys.holds, hnulls, hpredicates]

lemma holds_equality_swap : ∀ j ∈ range right.numRows, ∀ i ∈ range left.numRows,
    (equality true rightKeys leftKeys compareNulls).holds J.isTrue j i =
      keys.holdsAt J left right i j := by
  intro j hj i hi
  rw [← (isFor_equality hleft hright hnulls hpredicates true).holds i hi j hj]
  exact keysEqual_comm ..

end Calls

section Paths

variable {evaluated : EvaluatedKeys V}

variable {compareNulls : NullEquality}

/-- Equalities are refused, joined without a call if an input is empty, or handed to a call
of cuDF. -/
lemma equalityIndices_cases (task : JoinTask V)
    (hevaluated : evaluated.IsFor J.expressions keys left right)
    (hnulls : keys.compareNulls = some compareNulls)
    (hpredicates : keys.nonEqualityConditions = []) :
    (task.joinType = .inner ∧ task.perfectHashing = true ∧ equalityIndices J task evaluated =
        .error (.throws "Perfect hashing requires that at least one side has unique keys")) ∨
      (∃ indices, equalityIndices J task evaluated = .ok indices ∧
        indices.IsJoin J keys left right task.joinType) ∨
      ∃ call unknown, call.IsFor J keys left right ∧
        equalityIndices J task evaluated = callIndices J call unknown task.joinType := by
  have hemp : (evaluated.rightKeys.rows = [] ∨ evaluated.leftKeys.rows = []) →
      right.numRows = 0 ∨ left.numRows = 0 := by
    rw [← hevaluated.rightKeys.length_rows, ← hevaluated.leftKeys.length_rows,
      length_eq_zero_iff, length_eq_zero_iff]
    exact id
  unfold equalityIndices
  simp only [hevaluated.condition, JoinKeys.getCompareNulls_eq hnulls, ok_bind]
  split_ifs with hp hs ha
  · exact .inl ⟨hp.1, hp.2, rfl⟩
  · rcases hemp hs.2 with hzero | hzero <;> simp [hs.1, Indices.IsJoinOf, semi, hzero]
  · rw [hevaluated.leftKeys.length_rows]
    rcases hemp ha.2 with hzero | hzero <;> simp [ha.1, Indices.IsJoinOf, anti, hzero]
  · exact .inr (.inr ⟨_, _, isFor_equality hevaluated.leftKeys hevaluated.rightKeys hnulls
      hpredicates false, rfl⟩)

lemma fallback_eq_callIndices (task : JoinTask V)
    (hpar : parseJoinCondition {} condition = .ok keys)
    (hkeys : keys.IsSupported left.types right.types)
    (hevaluated : evaluated.IsFor J.expressions keys left right)
    (hpredicates : keys.nonEqualityConditions ≠ []) : ∃ call unknown, call.IsFor J keys left right ∧
      fallbackIndices J task left right evaluated = callIndices J call unknown task.joinType := by
  obtain ⟨hconsistent, -⟩ := isConsistent_of_parse hpar JoinKeys.isConsistent_empty
  obtain ⟨predicate, predicates, hpredicates⟩ := exists_cons_of_ne_nil hpredicates
  obtain ⟨ast, hast⟩ := hkeys.predicates predicate predicates hpredicates
  have hast' : parsePredicates left.numColumns predicate predicates = .ok ast := hast
  rw [fallbackIndices, hevaluated.condition, hpredicates]
  simp only [hast']
  split_ifs with hexprs
  · refine ⟨_, _, ⟨rfl, rfl, fun i _ j _ => ?_⟩, rfl⟩
    simp [holds, JoinKeys.holds, hconsistent.compareNulls.2 hexprs, hpredicates, hast]
  · obtain ⟨compareNulls, hnulls⟩ :=
      Option.ne_none_iff_exists'.1 (mt hconsistent.compareNulls.1 hexprs)
    simp only [JoinKeys.getCompareNulls_eq hnulls]
    refine ⟨.mixed evaluated.leftKeys evaluated.rightKeys left right ast compareNulls, _,
      ⟨hevaluated.leftKeys.length_rows, hevaluated.rightKeys.length_rows, fun i hi j hj => ?_⟩, rfl⟩
    rw [holds, hevaluated.leftKeys.getD_rows hi, hevaluated.rightKeys.getD_rows hj]
    simp [JoinKeys.holds, hnulls, hpredicates, hast]

section Joins

variable {task : JoinTask V} (hevaluated : evaluated.IsFor J.expressions keys left right)
  (hfull : task.joinType ≠ .full) (hsingle : task.joinType ≠ .single)
  (hperfect : task.joinType = .inner → keys.nonEqualityConditions = [] →
    task.perfectHashing = false)

include hevaluated hfull hsingle hperfect

lemma equalityIndices_eq_ok (hnulls : keys.compareNulls = some compareNulls)
    (hpredicates : keys.nonEqualityConditions = []) :
    ∃ indices, equalityIndices J task evaluated = .ok indices ∧
      indices.IsJoin J keys left right task.joinType := by
  obtain ⟨hinner, htrue, -⟩ | hidxs | ⟨call, unknown, hcall, heq⟩ :=
    equalityIndices_cases task hevaluated hnulls hpredicates
  · exact absurd htrue (by simp [hperfect hinner hpredicates])
  · exact hidxs
  · rw [heq]
    exact callIndices_eq_ok hcall hfull hsingle unknown

lemma fallbackIndices_eq_ok (hpar : parseJoinCondition {} condition = .ok keys)
    (hkeys : keys.IsSupported left.types right.types) :
    ∃ indices, fallbackIndices J task left right evaluated = .ok indices ∧
      indices.IsJoin J keys left right task.joinType := by
  by_cases hpredicates : keys.nonEqualityConditions = []
  · obtain ⟨compareNulls, hnulls⟩ := exists_compareNulls hpar hpredicates
    rw [fallbackIndices, hevaluated.condition, hpredicates]
    exact equalityIndices_eq_ok hevaluated hfull hsingle hperfect hnulls hpredicates
  · obtain ⟨call, unknown, hcall, heq⟩ :=
      fallback_eq_callIndices task hpar hkeys hevaluated hpredicates
    rw [heq]
    exact callIndices_eq_ok hcall hfull hsingle unknown

end Joins

/-- A hash map of the keys of a side of a join. -/
structure HashJoinImpl.IsFor (C : Cudf V) (keys : JoinKeys V) (left right : Table V)
    (side : BuildLocation) (impl : HashJoinImpl V) : Prop where
  compareNulls : keys.compareNulls = some impl.compareNulls
  build : match side with
    | .left => impl.build.IsFor C left 0 keys.leftKeyExprs
    | .right => impl.build.IsFor C right left.types.length keys.rightKeyExprs

/-- With a cached hash map, which may have been built by another task. -/
lemma cachedIndices_eq_ok {side : BuildLocation} {cache : Option (HashJoinImpl V)}
    (hevaluated : evaluated.IsFor J.expressions keys left right)
    (hnulls : keys.compareNulls = some compareNulls) (hpredicates : keys.nonEqualityConditions = [])
    (hcache : ∀ impl ∈ cache, impl.IsFor J.expressions keys left right side)
    (hjoinType : joinType = .inner ∨ joinType = .left ∧ side = .right) :
    ∃ indices impl, cachedIndices J side cache evaluated joinType = .ok (indices, some impl) ∧
      indices.IsJoin J keys left right joinType ∧
        impl.IsFor J.expressions keys left right side := by
  unfold cachedIndices
  simp only [hevaluated.condition, JoinKeys.getCompareNulls_eq hnulls, ok_bind]
  cases side with
  | left =>
    have himpl : (cache.getD ⟨evaluated.leftKeys, compareNulls⟩).IsFor
        J.expressions keys left right .left := by
      cases cache with
      | none => exact ⟨hnulls, hevaluated.leftKeys⟩
      | some impl => exact hcache impl rfl
    obtain rfl : joinType = .inner := hjoinType.resolve_right (by simp)
    generalize cache.getD ⟨evaluated.leftKeys, compareNulls⟩ = impl at himpl
    refine ⟨_, impl, rfl, ?_, himpl⟩
    -- the rows on the right are looked up, so the sides are exchanged
    have hperm := J.innerJoin_perm (.equality true evaluated.rightKeys impl.build impl.compareNulls)
    simp only [numLeft, numRight, himpl.build.length_rows,
      hevaluated.rightKeys.length_rows] at hperm
    rw [inner_congr (holds_equality_swap himpl.build hevaluated.rightKeys himpl.compareNulls
      hpredicates)] at hperm
    rw [map_map, ← Prod.map_comp_swap, ← map_map]
    exact ((hperm.map Prod.swap).trans (inner_swap ..)).map _
  | right =>
    have himpl : (cache.getD ⟨evaluated.rightKeys, compareNulls⟩).IsFor
        J.expressions keys left right .right := by
      cases cache with
      | none => exact ⟨hnulls, hevaluated.rightKeys⟩
      | some impl => exact hcache impl rfl
    generalize cache.getD ⟨evaluated.rightKeys, compareNulls⟩ = impl at himpl
    have hcall := isFor_equality hevaluated.leftKeys himpl.build himpl.compareNulls hpredicates true
    rcases hjoinType with rfl | ⟨rfl, -⟩
    · exact ⟨_, impl, rfl, hcall.isJoin ((J.innerJoin_perm _).map _), himpl⟩
    · exact ⟨_, impl, rfl, hcall.isJoin ((J.leftJoin_perm _).map _), himpl⟩

end Paths

/-! ### Rows -/

/-- The rows of a join before the projection, for tables with `n` and `k` columns. -/
@[simp] def joinRowsBy (m : Row V → Row V → Bool) (n k : Nat) (joinType : JoinType)
    (ls rs : List (Row V)) : List (Row V) :=
  let leftOuter := (leftOuter m ls rs).map fun p => p.1 ++ p.2.getD (Row.nulls k)
  match joinType with
  | .inner => (ListJoin.inner m ls rs).map fun p => p.1 ++ p.2
  | .left => leftOuter
  | .leftSemi => semi m ls rs
  | .leftAnti => anti m ls rs
  | .full => leftOuter ++ (rs.filter fun r => !ls.any (m · r)).map (Row.nulls n ++ ·)
  | .single => ls.map fun l => l ++ (rs.find? (m l)).getD (Row.nulls k)

/-- The join of two tables by a parsed condition. -/
def joinBy (J : CudfJoins V) (keys : JoinKeys V) (joinType : JoinType)
    (projectionIndices : List Nat) (left right : Table V) : Table V :=
  .materialize (fun i => (joinTypes joinType left right).getD i .empty)
    (joinRowsBy (keys.holds J left.types right.types) left.numColumns right.numColumns joinType
      left.rows right.rows) projectionIndices

omit [LinearOrder V] in
lemma select_range (r : Row V) : r.select (.range r.length) = r := by
  exact map_getD_range r none

omit [LinearOrder V] in
lemma rows_materialize_eq (τ : Nat → DataType) (rows : List (Row V))
    (projectionIndices : List Nat) :
    (Table.materialize τ rows projectionIndices).rows =
      if projectionIndices = [] then [] else rows.map (·.select projectionIndices) := by
  simp [Table.materialize, build]

omit [LinearOrder V] in
lemma rows_materialize_perm (τ τ' : Nat → DataType) {rows rows' : List (Row V)}
    (h : rows.Perm rows') (projectionIndices : List Nat) :
    (Table.materialize τ rows projectionIndices).rows.Perm
      (Table.materialize τ' rows' projectionIndices).rows := by
  rw [rows_materialize_eq, rows_materialize_eq]
  split_ifs
  · rfl
  · exact h.map _

/-- The rows at the positions of a join, with NULLs for a position that is out of bounds. -/
def Indices.rows (left right : Table V) : Indices → List (Row V)
  | .both indices => indices.map fun p => gatherRow left p.1 ++ gatherRow right p.2
  | .left indices => indices.map fun i => gatherRow left (some i)

section

variable (h : indices.IsJoin J keys left right joinType) (hfull : joinType ≠ .full)
include h hfull

/-- The rows at the positions of a join are the rows of the join. -/
lemma Indices.IsJoin.rows_perm : (indices.rows left right).Perm
      (joinRowsBy (keys.holds J left.types right.types) left.numColumns right.numColumns joinType
        left.rows right.rows) := by
  rw [← map_getD_range left.rows [], ← map_getD_range right.rows []]
  cases joinType <;> cases indices <;> try exact h.elim
  case inner.both =>
    rw [joinRowsBy, inner_map, map_map]
    exact (h.map _).trans (.of_eq (map_map ..))
  case left.both =>
    rw [joinRowsBy, leftOuter_map, map_map]
    refine (h.map _).trans (.of_eq ((map_map ..).trans (map_congr_left ?_)))
    rintro ⟨i, j⟩ -
    cases j <;> rfl
  case leftSemi.left =>
    rw [joinRowsBy, semi_map]
    exact h.map _
  case leftAnti.left =>
    rw [joinRowsBy, anti_map]
    exact h.map _
  case full.both => exact absurd rfl hfull

lemma materialize_eq_ok {projectionIndices : List Nat}
    (hproj : ∀ c ∈ projectionIndices, c < (joinTypes joinType left right).length) :
    ∃ t, materialize left right indices projectionIndices = .ok t ∧
      t.rows.Perm (joinBy J keys joinType projectionIndices left right).rows := by
  have hbds : ¬ ∃ c ∈ projectionIndices, left.numColumns + right.numColumns ≤ c := by
    rintro ⟨c, hc, hle⟩
    have := hproj c hc
    cases joinType <;> simp [joinTypes, Table.numColumns] at this hle <;> omega
  have hrows := rows_materialize_perm (fun i => (left.types ++ right.types).getD i .empty)
    (fun i => (joinTypes joinType left right).getD i .empty) (h.rows_perm hfull) projectionIndices
  unfold materialize
  simp only [hbds]
  cases indices with
  | both indices => exact ⟨_, rfl, hrows⟩
  | left indices =>
    have hleft : ¬ (indices ≠ [] ∧ ∃ c ∈ projectionIndices, left.numColumns ≤ c) := by
      rintro ⟨-, c, hc, hle⟩
      have := hproj c hc
      cases joinType <;> try exact h.elim
      all_goals
        simp [joinTypes, numColumns] at this hle
        omega
    simp only [hleft]
    exact ⟨_, rfl, hrows⟩

end

/-- What the builder and the query guarantee of a join task on tables of given types. -/
structure JoinTask.IsSupported (leftTypes rightTypes : List DataType) (keys : JoinKeys V)
    (task : JoinTask V) : Prop where
  parse : parseJoinCondition {} task.condition = .ok keys
  keys : keys.IsSupported leftTypes rightTypes
  ne_full : task.joinType ≠ .full
  ne_single : task.joinType ≠ .single
  perfectHashing : task.joinType = .inner → task.hashMapCache = none → task.perfectHashing = false
  buildLeft : task.hashMapCache = some .left → task.joinType ≠ .left

/-- The hash map in the cache, if any, is one for the tables of the task. -/
def JoinTask.CacheFor (C : Cudf V) (keys : JoinKeys V) (left right : Table V) (task : JoinTask V)
    (cache : Option (HashJoinImpl V)) : Prop :=
  ∀ side ∈ task.hashMapCache, ∀ impl ∈ cache, impl.IsFor C keys left right side

section Execute

variable {task : JoinTask V} {cache : Option (HashJoinImpl V)}

lemma joinIndices_eq_ok {evaluated : EvaluatedKeys V}
    (htask : task.IsSupported left.types right.types keys)
    (hevaluated : evaluated.IsFor J.expressions keys left right)
    (hcache : task.CacheFor J.expressions keys left right cache) :
    ∃ indices cache', task.joinIndices J cache left right evaluated = .ok (indices, cache') ∧
      indices.IsJoin J keys left right task.joinType ∧
      task.CacheFor J.expressions keys left right cache' := by
  have hfallback := fun hperfect => fallbackIndices_eq_ok hevaluated htask.ne_full htask.ne_single
    hperfect htask.parse htask.keys
  unfold JoinTask.joinIndices
  cases hside : task.hashMapCache with
  | none =>
    obtain ⟨indices, hidxs, hjoin⟩ := hfallback
      fun hinner _ => htask.perfectHashing hinner hside
    exact ⟨indices, cache, by simp [hidxs], hjoin, hcache⟩
  | some side =>
    split_ifs with hcached
    · obtain ⟨hpredicates, hsup⟩ := hcached
      rw [hevaluated.condition] at hpredicates
      obtain ⟨compareNulls, hnulls⟩ :=
        exists_compareNulls htask.parse hpredicates
      have hjoinType : task.joinType = .inner ∨ task.joinType = .left ∧ side = .right := by
        cases htype : task.joinType with
        | inner => exact .inl rfl
        | left =>
          cases side with
          | left => exact absurd htype (htask.buildLeft hside)
          | right => exact .inr ⟨rfl, rfl⟩
        | full => exact absurd htype htask.ne_full
        | leftSemi | leftAnti | single => simp [htype] at hsup
      obtain ⟨indices, impl, hidxs, hjoin, himpl⟩ := cachedIndices_eq_ok hevaluated hnulls
        hpredicates (hcache side hside) hjoinType
      refine ⟨indices, some impl, hidxs, hjoin, ?_⟩
      intro side' hside' impl' himpl'
      obtain rfl := Option.some.inj (hside.symm.trans hside')
      obtain rfl := Option.some.inj himpl'
      exact himpl
    · -- an inner join comes here with predicates only, for which there is no perfect hashing
      rw [hevaluated.condition] at hcached
      obtain ⟨indices, hidxs, hjoin⟩ := hfallback
        fun hinner hpredicates => absurd ⟨hpredicates, by simp [hinner]⟩ hcached
      exact ⟨indices, cache, by simp [hidxs], hjoin, hcache⟩

section Outputs

variable (htask : task.IsSupported left.types right.types keys)
  (hright : keys.FindRightTypes left.types right.types)
  (hkeys : keys.AreEvaluated J.expressions left right)
  (hcache : task.CacheFor J.expressions keys left right cache)

include htask hright hkeys hcache

/-- A task that materializes its output emits the join of its tables. -/
lemma execute_eq_table (hout : task.materializeOutput = true)
    (hproj : ∀ c ∈ task.projectionIndices, c < (joinTypes task.joinType left right).length) :
    ∃ t cache', task.execute J cache left right = .ok (.table t, cache') ∧
      t.rows.Perm (joinBy J keys task.joinType task.projectionIndices left right).rows ∧
      task.CacheFor J.expressions keys left right cache' := by
  obtain ⟨evaluated, hadd, hevaluated⟩ := addCondition_eq_ok htask.parse hright hkeys
  obtain ⟨indices, cache', hidxs, hjoin, hcache'⟩ := joinIndices_eq_ok htask hevaluated hcache
  obtain ⟨t, ht, hperm⟩ := materialize_eq_ok hjoin htask.ne_full hproj
  refine ⟨t, cache', ?_, hperm, hcache'⟩
  simp [JoinTask.execute, hadd, hidxs, ht, htask.ne_single, hout]

/-- A task that does not materialize its output emits the positions of the join. -/
lemma execute_eq_positions (hout : task.materializeOutput = false) :
    ∃ indices cache', task.execute J cache left right = .ok (.positions indices, cache') ∧
      indices.IsJoin J keys left right task.joinType ∧
      task.CacheFor J.expressions keys left right cache' := by
  obtain ⟨evaluated, hadd, hevaluated⟩ := addCondition_eq_ok htask.parse hright hkeys
  obtain ⟨indices, cache', hidxs, hjoin, hcache'⟩ := joinIndices_eq_ok htask hevaluated hcache
  refine ⟨indices, cache', ?_, hjoin, hcache'⟩
  simp [JoinTask.execute, hadd, hidxs, htask.ne_single, hout]

end Outputs

lemma areEvaluated_of_execute {result : TaskResult V × Option (HashJoinImpl V)}
    (hpar : parseJoinCondition {} task.condition = .ok keys)
    (h : task.execute J cache left right = .ok result) :
    keys.AreEvaluated J.expressions left right := by
  obtain ⟨evaluated, hadd, -⟩ := bind_eq_ok h
  exact areEvaluated_of_addJoinCondition hpar hadd

end Execute

end Gqe.Join
