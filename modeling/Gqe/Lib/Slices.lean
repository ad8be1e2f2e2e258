import Mathlib.Algebra.BigOperators.Group.List.Lemmas
import Mathlib.Algebra.GroupWithZero.Nat

/-!
# Parts laid end to end

A list that is the concatenation of its parts, with the positions at which the parts start, and the
slices that give the parts back.
-/

namespace Gqe.Slices

open List

variable {α β : Type*}

/-- The elements from position `start` on, up to position `stop`. -/
def slice (xs : List α) (start stop : Nat) : List α := (xs.take stop).drop start

/-- The number of elements before part `k`. -/
def start (parts : List (List α)) (k : Nat) : Nat := ((parts.map length).take k).sum

def starts (parts : List (List α)) : List Nat := (range parts.length).map (start parts)

variable {parts : List (List α)} {k : Nat}

lemma start_le_start_succ : start parts k ≤ start parts (k + 1) := by
  unfold start
  rw [take_add_one, sum_append]
  exact Nat.le_add_right ..

lemma start_le_length : start parts k ≤ parts.flatten.length := by
  rw [length_flatten, start]
  nth_rewrite 2 [← take_append_drop k (parts.map length)]
  rw [sum_append]
  exact Nat.le_add_right ..

lemma getElem?_starts_concat (hk : k ≤ parts.length) :
    (starts parts ++ [parts.flatten.length])[k]? = some (start parts k) := by
  have hcat : starts parts ++ [parts.flatten.length] =
      (range (parts.length + 1)).map (start parts) := by
    rw [range_succ, map_append, map_singleton, start, take_of_length_le (by simp), length_flatten]
    rfl
  rw [hcat, getElem?_map, getElem?_range (by omega), Option.map_some]

/-- The slice between two starts is the part. -/
lemma slice_flatten (hk : k < parts.length) :
    slice parts.flatten (start parts k) (start parts (k + 1)) = parts[k] :=
  drop_take_succ_flatten_eq_getElem parts k hk

/-! ### Buckets -/

section Buckets

variable (bucket : α → Nat)

lemma flatMap_filter_perm_filter (xs : List α) (n : Nat) :
    ((range n).flatMap fun k => xs.filter (bucket · = k)).Perm (xs.filter (bucket · < n)) := by
  induction n with
  | zero => simp
  | succ n ih =>
    rw [range_succ, flatMap_append, flatMap_singleton]
    refine (ih.append_right _).trans ?_
    have hsplit := filter_append_perm (fun x => decide (bucket x < n))
      (xs.filter (bucket · < n + 1))
    rw [filter_filter, filter_filter] at hsplit
    refine .trans (.of_eq ?_) hsplit
    congr 1
    · apply filter_congr
      intro x _
      rw [Bool.eq_iff_iff]
      simp only [decide_eq_true_eq, Bool.and_eq_true]
      omega
    · apply filter_congr
      intro x _
      rw [Bool.eq_iff_iff]
      simp only [decide_eq_true_eq, Bool.and_eq_true, Bool.not_eq_true', decide_eq_false_iff_not]
      omega

/-- The buckets together have every element once. -/
lemma flatMap_filter_perm {xs : List α} {n : Nat} (h : ∀ x ∈ xs, bucket x < n) :
    ((range n).flatMap fun k => xs.filter (bucket · = k)).Perm xs := by
  refine (flatMap_filter_perm_filter bucket xs n).trans (.of_eq ?_)
  rw [filter_eq_self]
  exact fun x hx => decide_eq_true (h x hx)

lemma flatMap_flatMap_filter_perm {xs : List α} {n : Nat} (h : ∀ x ∈ xs, bucket x < n)
    (f : α → List β) :
    ((range n).flatMap fun k => (xs.filter (bucket · = k)).flatMap f).Perm (xs.flatMap f) := by
  rw [← flatMap_assoc]
  exact (flatMap_filter_perm bucket h).flatMap_right f

end Buckets

end Gqe.Slices
