import Mathlib.Data.List.Nodup

/-!
# Sets of elements with different keys

A set keeps the first element of each key that is inserted and never drops it. Which element stands
for a key depends on the order of the insertions, the keys of the set do not.
-/

namespace Gqe.KeyedSet

open List

variable {α κ : Type*} [DecidableEq κ] (key : α → κ)

/-- The element with a key. -/
def find (set : List α) (k : κ) : Option α := set.find? fun y => key y = k

/-- Insert an element unless there is one with its key. -/
def insert (set : List α) (x : α) : List α :=
  if (find key set (key x)).isSome then set else set ++ [x]

def insertAll (set xs : List α) : List α := xs.foldl (insert key) set

variable {key} {set xs : List α} {x y : α} {k : κ}

/-! ### Looking up a key -/

lemma find_isSome_iff : (find key set k).isSome ↔ k ∈ set.map key := by
  simp [find]

lemma mem_of_find (h : find key set k = some y) : y ∈ set ∧ key y = k :=
  ⟨mem_of_find?_eq_some h, by simpa using List.find?_some h⟩

lemma exists_find (h : k ∈ set.map key) : ∃ y, find key set k = some y :=
  Option.isSome_iff_exists.1 (find_isSome_iff.2 h)

lemma find_eq_some_iff (hset : (set.map key).Nodup) :
    find key set k = some y ↔ y ∈ set ∧ key y = k := by
  refine ⟨mem_of_find, ?_⟩
  rintro ⟨hy, rfl⟩
  obtain ⟨z, hz⟩ := exists_find (mem_map_of_mem (f := key) hy)
  obtain ⟨hzset, hzk⟩ := mem_of_find hz
  rw [hz, inj_on_of_nodup_map hset hzset hy hzk]

/-! ### One insertion -/

lemma insert_of_mem (h : key x ∈ set.map key) : insert key set x = set :=
  if_pos (find_isSome_iff.2 h)

lemma insert_of_not_mem (h : key x ∉ set.map key) : insert key set x = set ++ [x] :=
  if_neg fun hfind => h (find_isSome_iff.1 hfind)

lemma nodup_insert (hset : (set.map key).Nodup) (x : α) : ((insert key set x).map key).Nodup := by
  by_cases h : key x ∈ set.map key
  · rwa [insert_of_mem h]
  · rw [insert_of_not_mem h, map_append]
    exact nodup_append.2 ⟨hset, nodup_singleton _, fun a ha b hb hab =>
      h (by rwa [← mem_singleton.1 hb, ← hab])⟩

lemma mem_keys_insert : k ∈ (insert key set x).map key ↔ k ∈ set.map key ∨ k = key x := by
  by_cases h : key x ∈ set.map key
  · rw [insert_of_mem h]
    exact ⟨.inl, fun hk => hk.elim id fun hk => hk ▸ h⟩
  · rw [insert_of_not_mem h]
    simp

lemma prefix_insert (set : List α) (x : α) : set <+: insert key set x := by
  by_cases h : key x ∈ set.map key
  · exact (insert_of_mem h).symm ▸ prefix_rfl
  · rw [insert_of_not_mem h]
    exact prefix_append _ _

lemma mem_insert (h : y ∈ insert key set x) : y ∈ set ∨ y = x := by
  by_cases hx : key x ∈ set.map key
  · exact .inl (by rwa [insert_of_mem hx] at h)
  · simpa [insert_of_not_mem hx] using h

/-! ### A run of insertions -/

lemma nodup_insertAll (hset : (set.map key).Nodup) (xs : List α) :
    ((insertAll key set xs).map key).Nodup := by
  induction xs generalizing set with
  | nil => exact hset
  | cons x xs ih => exact ih (nodup_insert hset x)

lemma mem_keys_insertAll :
    k ∈ (insertAll key set xs).map key ↔ k ∈ set.map key ∨ k ∈ xs.map key := by
  induction xs generalizing set with
  | nil => simp [insertAll]
  | cons x xs ih =>
    have hstep : insertAll key set (x :: xs) = insertAll key (insert key set x) xs := rfl
    rw [hstep, ih, mem_keys_insert, map_cons, mem_cons, or_assoc]

lemma prefix_insertAll (set xs : List α) : set <+: insertAll key set xs := by
  induction xs generalizing set with
  | nil => exact prefix_rfl
  | cons x xs ih => exact (prefix_insert set x).trans (ih _)

lemma mem_insertAll (h : y ∈ insertAll key set xs) : y ∈ set ∨ y ∈ xs := by
  induction xs generalizing set with
  | nil => exact .inl h
  | cons x xs ih =>
    rcases ih h with hy | hy
    · exact (mem_insert hy).imp id fun hx => mem_cons.2 (.inl hx)
    · exact .inr (mem_cons_of_mem x hy)

lemma nodup_insertAll_nil (xs : List α) : ((insertAll key [] xs).map key).Nodup :=
  nodup_insertAll (by simp) xs

/-! ### Sets of a fixed capacity -/

section Capacity

variable (key) (capacity : Nat)

/-- Insert an element; there may be no room for it. -/
def insertWithin (set : List α) (x : α) : Option (List α) :=
  if (find key set (key x)).isSome then some set
  else if set.length < capacity then some (set ++ [x])
  else none

def insertAllWithin (set xs : List α) : Option (List α) := xs.foldlM (insertWithin key capacity) set

end Capacity

variable {capacity : Nat}

lemma insertWithin_eq_some {set' : List α} (h : insertWithin key capacity set x = some set') :
    set' = insert key set x := by
  unfold insertWithin at h
  unfold insert
  split_ifs at h ⊢
  · exact (Option.some.inj h).symm
  · exact (Option.some.inj h).symm

lemma insertWithin_of_length_le (h : (insert key set x).length ≤ capacity) :
    insertWithin key capacity set x = some (insert key set x) := by
  unfold insert at h ⊢
  unfold insertWithin
  split_ifs at h ⊢ with hfind hroom
  · rfl
  · rfl
  · exact absurd (Nat.lt_of_succ_le (by simpa using h)) hroom

lemma insertAllWithin_eq_some {set' : List α}
    (h : insertAllWithin key capacity set xs = some set') : set' = insertAll key set xs := by
  induction xs generalizing set with
  | nil => exact (Option.some.inj h).symm
  | cons x xs ih =>
    obtain ⟨set₁, hset₁, h⟩ := Option.bind_eq_some_iff.1 h
    rw [insertWithin_eq_some hset₁] at h
    exact ih h

/-- All insertions succeed if there is room for the elements of the resulting set. -/
lemma insertAllWithin_of_length_le (h : (insertAll key set xs).length ≤ capacity) :
    insertAllWithin key capacity set xs = some (insertAll key set xs) := by
  induction xs generalizing set with
  | nil => rfl
  | cons x xs ih =>
    have hroom : (insert key set x).length ≤ capacity :=
      Nat.le_trans (prefix_insertAll _ xs).length_le h
    rw [insertAllWithin, foldlM_cons, insertWithin_of_length_le hroom]
    exact ih h

end Gqe.KeyedSet
