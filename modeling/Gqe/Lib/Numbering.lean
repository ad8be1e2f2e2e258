import Mathlib.Data.List.Nodup

/-!
# Numbers for the elements of a split list

The elements of each part are numbered by the number of the part and their position in it. The
numbers are different as long as the numbers of the parts are and no part is too long.
-/

namespace Gqe.Numbering

open List

variable {α : Type*} {w : Nat}

/-- The elements of the part `k`, whose numbers start at `k * w`. -/
def number (w k : Nat) (xs : List α) : List (α × Nat) := xs.zipIdx (k * w)

def numberParts (w : Nat) (ks : List Nat) (parts : List (List α)) : List (α × Nat) :=
  (List.zipWith (number w) ks parts).flatten

lemma map_fst_number (k : Nat) (xs : List α) : (number w k xs).map (·.1) = xs :=
  zipIdx_map_fst ..

variable {ks : List Nat} {parts : List (List α)}

lemma map_fst_numberParts (h : ks.length = parts.length) :
    (numberParts w ks parts).map (·.1) = parts.flatten := by
  induction ks generalizing parts with
  | nil =>
    obtain rfl := length_eq_zero_iff.1 h.symm
    rfl
  | cons k ks ih =>
    cases parts with
    | nil => cases h
    | cons xs parts =>
      have ih := ih (Nat.succ.inj h)
      rw [numberParts] at ih ⊢
      simp [map_fst_number, ih]

lemma div_eq_of_mem_number {k n : Nat} {xs : List α} {x : α} (h : (x, n) ∈ number w k xs)
    (hlen : xs.length ≤ w) : n / w = k := by
  obtain ⟨hle, hlt, -⟩ := mem_zipIdx h
  exact Nat.div_eq_of_lt_le hle (by rw [Nat.succ_mul]; omega)

/-- The number of an element tells the number of its part. -/
lemma div_mem_of_numberParts (hlen : ∀ xs ∈ parts, xs.length ≤ w) {p : α × Nat}
    (h : p ∈ numberParts w ks parts) : p.2 / w ∈ ks := by
  obtain ⟨ys, hys, hp⟩ := mem_flatten.1 h
  obtain ⟨i, hi, rfl⟩ := getElem_of_mem hys
  rw [getElem_zipWith] at hp
  rw [div_eq_of_mem_number hp (hlen _ (getElem_mem _))]
  exact getElem_mem _

lemma nodup_map_snd_number (k : Nat) (xs : List α) : ((number w k xs).map (·.2)).Nodup := by
  rw [number, zipIdx_map_snd]
  exact nodup_range'

/-- The elements of parts with different numbers have different numbers. -/
lemma nodup_snd_numberParts (hks : ks.Nodup)
    (hlen : ∀ xs ∈ parts, xs.length ≤ w) : ((numberParts w ks parts).map (·.2)).Nodup := by
  induction ks generalizing parts with
  | nil => exact nodup_nil
  | cons k ks ih =>
    cases parts with
    | nil => exact nodup_nil
    | cons xs parts =>
      obtain ⟨hk, hks⟩ := nodup_cons.1 hks
      obtain ⟨hxs, hparts⟩ := forall_mem_cons.1 hlen
      have happ : numberParts w (k :: ks) (xs :: parts) =
          number w k xs ++ numberParts w ks parts := rfl
      rw [happ, map_append, nodup_append]
      refine ⟨nodup_map_snd_number k xs, ih hks hparts, ?_⟩
      rintro n hn m hm rfl
      obtain ⟨p, hp, rfl⟩ := mem_map.1 hn
      obtain ⟨q, hq, heq⟩ := mem_map.1 hm
      have hdiv := div_mem_of_numberParts hparts hq
      rw [heq, div_eq_of_mem_number hp hxs] at hdiv
      exact hk hdiv

lemma snd_ne_of_disjoint {β : Type*} {ks ks' : List Nat}
    {parts' : List (List β)} (hks : ks.Disjoint ks') (hlen : ∀ xs ∈ parts, xs.length ≤ w)
    (hlen' : ∀ xs ∈ parts', xs.length ≤ w) {p : α × Nat} (hp : p ∈ numberParts w ks parts)
    {q : β × Nat} (hq : q ∈ numberParts w ks' parts') : p.2 ≠ q.2 := by
  intro heq
  have hdiv := div_mem_of_numberParts hlen hp
  rw [heq] at hdiv
  exact hks hdiv (div_mem_of_numberParts hlen' hq)

end Gqe.Numbering
