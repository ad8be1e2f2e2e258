import Mathlib.Data.List.Nodup

/-!
# Dealing out a list in chunks

Consumers take consecutive chunks of one size from a list of items, one chunk each, until consumers
or items run out.
-/

namespace Chunking

open List

variable {α β : Type*}

/-- Deal out the items from position `start` on. -/
def deal (chunk : Nat) (items : List β) : List α → (start : Nat) → List (α × List β)
  | [], _ => []
  | a :: as, start =>
    if start < items.length then
      (a, (items.take (min (start + chunk) items.length)).drop start) ::
        deal chunk items as (start + chunk)
    else []

variable {chunk start : Nat} {items : List β} {as : List α}

lemma deal_cons {a : α} (h : start < items.length) : deal chunk items (a :: as) start =
      (a, (items.drop start).take chunk) :: deal chunk items as (start + chunk) := by
  rw [deal, if_pos h, ← take_eq_take_min, drop_take, Nat.add_sub_cancel_left]

lemma deal_of_le (h : items.length ≤ start) : deal chunk items as start = [] := by
  cases as with
  | nil => rfl
  | cons a as => rw [deal, if_neg (Nat.not_lt.2 h)]

lemma map_fst_deal_eq_iff (hne : as ≠ []) (start : Nat) :
    (deal chunk items as start).map Prod.fst = as ↔
      start + (as.length - 1) * chunk < items.length := by
  induction as generalizing start with
  | nil => exact absurd rfl hne
  | cons a as ih =>
    by_cases h : start < items.length
    · rw [deal_cons h, map_cons, List.cons.injEq, eq_self, true_and]
      cases as with
      | nil => simpa [deal] using h
      | cons b bs =>
        have hlen : ((a :: b :: bs).length - 1) * chunk =
            chunk + ((b :: bs).length - 1) * chunk := by
          simp [Nat.succ_mul, Nat.add_comm]
        rw [ih (by simp), hlen, Nat.add_assoc]
    · have hle := Nat.le_of_not_lt h
      rw [deal_of_le hle]
      refine iff_of_false (by simp) (Nat.not_lt.2 ?_)
      exact Nat.le_trans hle (Nat.le_add_right _ _)

/-- The chunks are the items in their order. -/
lemma flatten_map_snd_deal (as : List α) (start : Nat) :
    ((deal chunk items as start).map Prod.snd).flatten =
      (items.drop start).take (as.length * chunk) := by
  induction as generalizing start with
  | nil => simp [deal]
  | cons a as ih =>
    by_cases h : start < items.length
    · rw [deal_cons h, map_cons, flatten_cons, ih, ← drop_drop, length_cons,
        Nat.succ_mul, Nat.add_comm _ chunk, take_add]
    · rw [deal_of_le (Nat.le_of_not_lt h), drop_eq_nil_of_le (Nat.le_of_not_lt h)]
      simp

/-- Chunks in terms of their numbers. -/
lemma forall_mem_deal_iff {P : List β → Prop} (hP : P []) (start : Nat) :
    (∀ x ∈ deal chunk items as start, P x.2) ↔
      ∀ k < as.length, P ((items.drop (start + k * chunk)).take chunk) := by
  induction as generalizing start with
  | nil => simp [deal]
  | cons a as ih =>
    by_cases h : start < items.length
    · rw [deal_cons h, forall_mem_cons, ih, length_cons, Nat.forall_lt_succ_left]
      simp [Nat.succ_mul, Nat.add_assoc, Nat.add_comm chunk]
    · have hle := Nat.le_of_not_lt h
      rw [deal_of_le hle]
      have hnil : ∀ k, items.drop (start + k * chunk) = [] := fun k =>
        drop_eq_nil_of_le (Nat.le_trans hle (Nat.le_add_right _ _))
      simp [hnil, hP]

lemma mem_of_mem_deal {x : α × List β}
    (hx : x ∈ deal chunk items as start) {b : β} (hb : b ∈ x.2) : b ∈ items := by
  have hflat : b ∈ ((deal chunk items as start).map Prod.snd).flatten :=
    mem_flatten.2 ⟨x.2, mem_map.2 ⟨x, hx, rfl⟩, hb⟩
  rw [flatten_map_snd_deal] at hflat
  exact mem_of_mem_drop (mem_of_mem_take hflat)

lemma ne_nil_of_mem_deal (hchunk : 0 < chunk) {x : α × List β}
    (hx : x ∈ deal chunk items as start) : x.2 ≠ [] := by
  induction as generalizing start with
  | nil => simp [deal] at hx
  | cons a as ih =>
    by_cases h : start < items.length
    · rw [deal_cons h, mem_cons] at hx
      rcases hx with rfl | hx
      · have hlen : 0 < ((items.drop start).take chunk).length := by
          rw [length_take, length_drop]
          omega
        exact ne_nil_of_length_pos hlen
      · exact ih hx
    · rw [deal_of_le (Nat.le_of_not_lt h)] at hx
      simp at hx

/-- Chunks of a list without duplicates have nothing in common. -/
lemma pairwise_disjoint_deal (hitems : items.Nodup) (as : List α) (start : Nat) :
    (deal chunk items as start).Pairwise fun x y => x.2.Disjoint y.2 := by
  have hflat : ((deal chunk items as start).map Prod.snd).flatten.Nodup := by
    rw [flatten_map_snd_deal]
    exact hitems.sublist ((take_sublist _ _).trans (drop_sublist _ _))
  exact pairwise_map.1 (nodup_flatten.1 hflat).2

end Chunking
