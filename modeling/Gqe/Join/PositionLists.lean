import Gqe.Join.Tasks
import Mathlib.Algebra.GroupWithZero.Nat

/-!
# Merging position lists

What `materialize_join_from_position_lists_task` makes of the position lists of several tasks: a
semi join keeps the rows whose position is in some list, an anti join those whose position is in all
of them.
-/

namespace Gqe.Join

open List Bool

variable {V : Type}

/-! ### Masks and counts -/

lemma getElem?_setBooleanMask (mask : List Bool) (indices : List Nat) (i : Nat) :
    (setBooleanMask mask indices)[i]? = mask[i]?.map (· || decide (i ∈ indices)) := by
  unfold setBooleanMask
  induction indices generalizing mask with
  | nil => simp
  | cons j indices ih =>
    rw [foldl_cons, ih, getElem?_set]
    split_ifs with hij hj
    · obtain rfl := hij
      simp [hj]
    · obtain rfl := hij
      simp [hj]
    · simp [Ne.symm hij]

lemma getElem?_incrementCounts (counts : List Nat) (indices : List Nat) (i : Nat) :
    (incrementCounts counts indices)[i]? = counts[i]?.map (· + indices.count i) := by
  unfold incrementCounts
  induction indices generalizing counts with
  | nil => simp
  | cons j indices ih =>
    rw [foldl_cons, ih, getElem?_modify, Option.map_eq_map, Option.map_map]
    congr 1
    funext count
    by_cases hij : j = i
    · simp [hij]
      omega
    · simp [hij]

lemma getElem?_foldl_setBooleanMask (mask : List Bool) (lists : List (List Nat)) (i : Nat) :
    (lists.foldl setBooleanMask mask)[i]? =
      mask[i]?.map (· || lists.any (fun indices => decide (i ∈ indices))) := by
  induction lists generalizing mask with
  | nil => simp
  | cons indices lists ih =>
    rw [foldl_cons, ih, getElem?_setBooleanMask, Option.map_map]
    congr 1
    funext b
    simp [Bool.or_assoc]

lemma getElem?_foldl_incrementCounts (counts : List Nat) (lists : List (List Nat)) (i : Nat) :
    (lists.foldl incrementCounts counts)[i]? =
      counts[i]?.map (· + (lists.map (·.count i)).sum) := by
  induction lists generalizing counts with
  | nil => simp
  | cons indices lists ih =>
    rw [foldl_cons, ih, getElem?_incrementCounts]
    simp [Function.comp_def, Nat.add_assoc]

variable {lists : List (List Nat)}

/-- Every list counts once for a position, so the count is full if all lists have it. -/
lemma sum_count_le_length (hlists : ∀ indices ∈ lists, indices.Nodup)
    (i : Nat) : (lists.map (·.count i)).sum ≤ lists.length ∧
      ((lists.map (·.count i)).sum = lists.length ↔ ∀ indices ∈ lists, i ∈ indices) := by
  induction lists with
  | nil => simp
  | cons indices lists ih =>
    obtain ⟨hnd, hlists⟩ := forall_mem_cons.1 hlists
    obtain ⟨hsum, ih⟩ := ih hlists
    have hcnt := nodup_iff_count_le_one.1 hnd i
    rw [forall_mem_cons, map_cons, sum_cons, length_cons]
    refine ⟨by omega, ?_⟩
    constructor
    · intro h
      exact ⟨count_pos_iff.1 (by omega), ih.1 (by omega)⟩
    · rintro ⟨hi, hrest⟩
      have hpos := count_pos_iff.2 hi
      have hrest := ih.2 hrest
      omega

lemma applyBooleanMask_map (rows : List (Row V)) (q : Nat → Bool) :
    applyBooleanMask rows ((range rows.length).map q) =
      ((range rows.length).filter q).map (rows.getD · []) := by
  nth_rewrite 1 [← ListJoin.map_getD_range rows []]
  rw [applyBooleanMask, zip_map', filter_map, map_map]
  rfl

/-! ### Materialization -/

/-- A position list of a table with `n` rows: the positions with a property, each once. -/
def IsPositionList (n : Nat) (q : Nat → Bool) (indices : List Nat) : Prop :=
  indices.Perm ((range n).filter q)

namespace IsPositionList

variable {n : Nat} {q : Nat → Bool} {indices : List Nat}

lemma mem_iff (h : IsPositionList n q indices) {i : Nat} (hi : i < n) : i ∈ indices ↔ q i := by
  rw [List.Perm.mem_iff h, mem_filter, mem_range, and_iff_right hi]

end IsPositionList

lemma mapM_positionColumn (lists : List (List Nat)) :
    (lists.map fun indices => (TaskResult.positions (.left indices) : TaskResult V)).mapM
      TaskResult.positionColumn = .ok lists := by
  induction lists with
  | nil => rfl
  | cons indices lists ih =>
    rw [map_cons, mapM_cons, ih]
    rfl

section Merge

variable {n : Nat} {qs : List (Nat → Bool)} {lists : List (List Nat)}

section

variable (hlists : List.Forall₂ (IsPositionList n) qs lists)
include hlists

lemma any_mem_eq {i : Nat} (hi : i < n) :
    lists.any (fun indices => decide (i ∈ indices)) = qs.any (· i) := by
  induction hlists with
  | nil => rfl
  | cons h _ ih => rw [any_cons, ih, decide_congr (h.mem_iff hi)]; simp

lemma forall_mem_iff {i : Nat} (hi : i < n) : (∀ indices ∈ lists, i ∈ indices) ↔ qs.all (· i) := by
  induction hlists with
  | nil => simp
  | cons h _ ih => rw [forall_mem_cons, ih, h.mem_iff hi, all_cons, and_eq_true]

lemma nodup_of_mem : ∀ indices ∈ lists, indices.Nodup := by
  induction hlists with
  | nil => simp
  | cons h _ ih => exact forall_mem_cons.2 ⟨h.nodup_iff.2 (nodup_range.filter _), ih⟩

lemma foldl_setBooleanMask_eq :
    lists.foldl setBooleanMask (.replicate n false) = (range n).map fun i => qs.any (· i) := by
  apply ext_getElem?
  intro i
  rw [getElem?_foldl_setBooleanMask, getElem?_replicate]
  split_ifs with hi
  · simp [hi, any_mem_eq hlists hi]
  · simp [hi]

lemma foldl_incrementCounts_eq :
    ((lists.foldl incrementCounts (.replicate n 0)).map fun count =>
      decide (count = lists.length)) =
      (range n).map fun i => qs.all (· i) := by
  apply ext_getElem?
  intro i
  rw [getElem?_map, getElem?_foldl_incrementCounts, getElem?_replicate, getElem?_map]
  split_ifs with hi
  · have hcnt := (sum_count_le_length (nodup_of_mem hlists) i).2.trans (forall_mem_iff hlists hi)
    simp only [hi, Option.map_some, Nat.zero_add, decide_congr hcnt, decide_eq_true, getElem?_range]
  · simp [hi]

end

end Merge

variable {projectionIndices : List Nat}

/-- The rows whose positions are in some list, or in all of them for an anti join. -/
lemma materializePositions_eq_ok (joinType : JoinType) {left : Table V}
    {qs : List (Nat → Bool)} (hlists : List.Forall₂ (IsPositionList left.numRows) qs lists)
    (hproj : ∀ c ∈ projectionIndices, c < left.numColumns) :
    materializeJoinFromPositionLists joinType left
        (lists.map fun indices => .positions (.left indices)) projectionIndices =
      .ok (.materialize left.typeOf (((range left.numRows).filter fun i =>
        if joinType = .leftAnti then qs.all (· i) else qs.any (· i)).map (left.rows.getD · []))
        projectionIndices) := by
  have hbds : ¬ ∃ c ∈ projectionIndices, left.numColumns ≤ c := by
    rintro ⟨c, hc, hle⟩
    exact Nat.not_lt.2 hle (hproj c hc)
  unfold materializeJoinFromPositionLists
  rw [mapM_positionColumn]
  simp only [bind, Except.bind]
  rw [foldl_setBooleanMask_eq hlists, foldl_incrementCounts_eq hlists]
  split_ifs with hanti
  · rw [Table.numRows, applyBooleanMask_map]
  · rw [Table.numRows, applyBooleanMask_map]

/-- A semi join keeps a row that is matched, an anti join one that is not. -/
def keeps (joinType : JoinType) (isMatched : Bool) : Bool :=
  if joinType = .leftAnti then !isMatched else isMatched

/-- The lists of groups of rows on the right, merged: the rows that are kept for all groups
together. -/
lemma materializePositions_flatten {α : Type} (joinType : JoinType) {left : Table V}
    (m : Nat → α → Bool) {groups : List (List α)}

    (hlists : List.Forall₂ (fun group indices => IsPositionList left.numRows
      (fun i => keeps joinType (group.any (m i))) indices) groups lists)
    (hproj : ∀ c ∈ projectionIndices, c < left.numColumns) :
    materializeJoinFromPositionLists joinType left
        (lists.map fun indices => .positions (.left indices)) projectionIndices =
      .ok (.materialize left.typeOf (((range left.numRows).filter fun i =>
        keeps joinType (groups.flatten.any (m i))).map (left.rows.getD · []))
          projectionIndices) := by
  rw [materializePositions_eq_ok joinType (forall₂_map_left_iff.2 hlists) hproj]
  unfold keeps
  split_ifs
  · simp [not_any_eq_all_not, Function.comp_def]
  · simp [Function.comp_def]

end Gqe.Join
