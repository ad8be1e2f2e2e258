import Mathlib.Data.List.Forall2

/-!
# Odometer

Enumeration of a cartesian product by a mixed-radix counter: one digit for each list of options,
incremented from the right, until a carry leaves the leftmost digit. The counter visits every
choice once, in the order of the nested product.
-/

namespace Odometer

open List

variable {α : Type*}

/-- The choices of one entry of each list, the last one varying fastest. -/
def product : List (List α) → List (List α)
  | [] => [[]]
  | o :: os => o.flatMap fun a => (product os).map (a :: ·)

def size : List (List α) → Nat
  | [] => 1
  | o :: os => o.length * size os

/-- Each digit is below the number of its options. -/
abbrev InBounds (opts : List (List α)) (idx : List Nat) : Prop :=
  List.Forall₂ (fun o i => i < o.length) opts idx

/-- The number of choices before a state of the counter. -/
def rank : List (List α) → List Nat → Nat
  | _ :: os, i :: is => i * size os + rank os is
  | _, _ => 0

/-- The choice a state of the counter stands for. -/
def choice : List (List α) → List Nat → List α
  | o :: os, i :: is => match o[i]? with
    | some a => a :: choice os is
    | none => choice os is
  | _, _ => []

/-- The next state, and whether the increment carries out of the leftmost digit. -/
def increment : List (List α) → List Nat → List Nat × Bool
  | o :: os, i :: is =>
    match increment os is with
    | (is, false) => (i :: is, false)
    | (is, true) => if i + 1 < o.length then ((i + 1) :: is, false) else (0 :: is, true)
  | _, _ => ([], true)

variable {opts : List (List α)}

lemma mem_product {c : List α} : c ∈ product opts ↔ List.Forall₂ (· ∈ ·) c opts := by
  induction opts generalizing c with
  | nil => simp [product]
  | cons o os ih =>
    simp only [product, forall₂_cons_right_iff]
    grind

lemma ne_nil_of_mem_product {c : List α} (h : c ∈ product opts) : ∀ o ∈ opts, o ≠ [] := by
  have h := mem_product.1 h
  induction h with
  | nil => simp
  | cons ha _ ih =>
    rintro o (_ | ⟨_, ho⟩)
    · exact ne_nil_of_mem ha
    · exact ih (mem_product.2 ‹_›) o ho

lemma length_product (opts : List (List α)) : (product opts).length = size opts := by
  induction opts with
  | nil => rfl
  | cons o os ih => simp [product, size, ih]

variable {idx : List Nat}

lemma increment_inBounds (h : InBounds opts idx) : InBounds opts (increment opts idx).1 := by
  induction h with
  | nil => exact .nil
  | @cons o i os is hi _ ih =>
    simp only [increment]
    rcases hinc : increment os is with ⟨is', _ | _⟩
    · exact .cons hi (by simpa [hinc] using ih)
    · rw [hinc] at ih
      split_ifs with hlt
      · exact .cons hlt ih
      · exact .cons (Nat.zero_lt_of_lt hi) ih

/-- One step of the counter moves on by one choice, or ends at the last one. -/
lemma rank_increment (h : InBounds opts idx) : match increment opts idx with
    | (idx', false) => rank opts idx' = rank opts idx + 1
    | (idx', true) => rank opts idx' = 0 ∧ rank opts idx + 1 = size opts := by
  induction h with
  | nil => exact ⟨rfl, rfl⟩
  | @cons o i os is hi _ ih =>
    simp only [increment]
    rcases hinc : increment os is with ⟨is', _ | _⟩
    · simp only [hinc] at ih
      simp only [rank]
      omega
    · simp only [hinc] at ih
      split_ifs with hlt
      · simp only [rank, Nat.add_mul]
        omega
      · have hi : i + 1 = o.length := by omega
        simp only [rank, size, ← hi, Nat.add_mul]
        omega

lemma getElem?_flatMap {β : Type*} {f : α → List β} {n : Nat} (hf : ∀ a, (f a).length = n)
    (o : List α) (i : Nat) {j : Nat} (hj : j < n) :
    (o.flatMap f)[i * n + j]? = o[i]?.bind fun a => (f a)[j]? := by
  induction o generalizing i with
  | nil => simp
  | cons a o ih =>
    cases i with
    | zero => rw [flatMap_cons, getElem?_append_left (by rw [hf]; omega)]; simp
    | succ i =>
      have hsub : (i + 1) * n + j - n = i * n + j := by rw [Nat.add_mul]; omega
      rw [flatMap_cons, getElem?_append_right (by rw [hf, Nat.add_mul]; omega), hf, hsub,
        ih, getElem?_cons_succ]

lemma rank_lt_size (h : InBounds opts idx) : rank opts idx < size opts := by
  induction h with
  | nil => exact Nat.one_pos
  | @cons o i os is hi _ ih =>
    have hmul : (i + 1) * size os ≤ o.length * size os := Nat.mul_le_mul_right _ hi
    simp only [rank, size, Nat.add_mul] at hmul ⊢
    omega

/-- The choices before a state are as many as its rank says. -/
lemma getElem?_product (h : InBounds opts idx) :
    (product opts)[rank opts idx]? = some (choice opts idx) := by
  induction h with
  | nil => rfl
  | @cons o i os is hi his ih =>
    rw [product, rank, getElem?_flatMap (fun a => by simp [length_product]) o i (rank_lt_size his)]
    simp [hi, ih, choice]

/-- The choices from a state of the counter on. -/
def run (opts : List (List α)) (idx : List Nat) (h : InBounds opts idx) : List (List α) :=
  choice opts idx ::
    match hinc : increment opts idx with
    | (idx', false) => run opts idx' (by simpa [hinc] using increment_inBounds h)
    | (_, true) => []
termination_by size opts - rank opts idx
decreasing_by
  have hrank := rank_increment h
  have hlt := rank_lt_size h
  simp only [hinc] at hrank
  omega

lemma run_eq_drop (opts : List (List α)) (idx : List Nat) (h : InBounds opts idx) :
    run opts idx h = (product opts).drop (rank opts idx) := by
  fun_induction run opts idx h with
  | case1 idx h ih =>
    obtain ⟨hlt, hchoice⟩ := List.getElem?_eq_some_iff.1 (getElem?_product h)
    have hrank := rank_increment h
    rw [drop_eq_getElem_cons hlt, hchoice]
    split
    next idx' hinc =>
      simp only [hinc] at hrank
      rw [ih idx' hinc, hrank]
    next idx' hinc =>
      simp only [hinc] at hrank
      rw [hrank.2, ← length_product, drop_length]

/-- The counter of one digit for each list of options, all at zero. -/
def start (opts : List (List α)) : List Nat := opts.map fun _ => 0

lemma start_inBounds (h : ∀ o ∈ opts, o ≠ []) : InBounds opts (start opts) := by
  induction opts with
  | nil => exact .nil
  | cons o os ih =>
    exact .cons (length_pos_of_ne_nil (h o (by simp))) (ih fun o' ho' => h o' (by simp [ho']))

lemma rank_start (opts : List (List α)) : rank opts (start opts) = 0 := by
  induction opts with
  | nil => rfl
  | cons o os ih => simpa [start, rank] using ih

/-- **The counter visits every choice once.** -/
theorem run_start (h : ∀ o ∈ opts, o ≠ []) :
    run opts (start opts) (start_inBounds h) = product opts := by
  rw [run_eq_drop, rank_start, drop_zero]

end Odometer
