import Gqe.Lib.Wildcard

/-!
# Shift-and search

The state of the search for a segment has one bit for each of its cells: bit `j` says that the end
of what was read fits the first `j + 1` cells. A character shifts the state and keeps the bits of
the cells that fit it.
-/

namespace ShiftAnd

open Wildcard List

variable {κ α : Type*} {fits : κ → α → Bool} {w : Nat} {p : List κ} {u : List α}

/-- Shift in a first bit, and keep the bits of the mask. -/
def shift (state mask : BitVec w) : BitVec w := (state <<< 1 + 1#w) &&& mask

/-- The mask of a character has the bits of the cells that fit it. -/
def IsMask (fits : κ → α → Bool) (p : List κ) (mask : α → BitVec w) : Prop :=
  ∀ c j, j < w → ((mask c).getLsbD j = true ↔ ∃ k, p[j]? = some k ∧ fits k c)

/-- The state after the characters `u`. -/
def Tracks (fits : κ → α → Bool) (p : List κ) (u : List α) (state : BitVec w) : Prop :=
  ∀ j < w, (state.getLsbD j = true ↔ j < p.length ∧ EndsWith fits (p.take (j + 1)) u)

lemma tracks_zero : Tracks fits p [] (0 : BitVec w) := by
  intro j hj
  simp only [BitVec.ofNat_eq_ofNat, BitVec.getLsbD_zero, Bool.false_eq_true, false_iff, not_and]
  intro hjp
  refine not_endsWith_nil (ne_nil_of_length_pos ?_)
  rw [length_take]
  omega

lemma getLsbD_shift (state mask : BitVec w) {j : Nat} (hj : j < w) :
    (shift state mask).getLsbD j = ((j == 0 || state.getLsbD (j - 1)) && mask.getLsbD j) := by
  have hor : state <<< 1 + 1#w = state <<< 1 ||| 1#w := by
    refine BitVec.add_eq_or_of_and_eq_zero _ _ ?_
    ext i hi
    simp
    omega
  rw [shift, hor, BitVec.getLsbD_and, BitVec.getLsbD_or, BitVec.getLsbD_shiftLeft]
  cases j <;> simp [hj]

/-- One character of the search. -/
lemma Tracks.shift {mask : α → BitVec w} (hmask : IsMask fits p mask) {state : BitVec w}
    (h : Tracks fits p u state) (c : α) : Tracks fits p (u ++ [c]) (shift state (mask c)) := by
  intro j hj
  rw [getLsbD_shift _ _ hj, Bool.and_eq_true, hmask c j hj]
  rcases Nat.lt_or_ge j p.length with hjp | hjp
  · have htake : p.take (j + 1) = p.take j ++ [p[j]] := by simp
    simp only [getElem?_eq_getElem hjp, Option.some.injEq, exists_eq_left', hjp, true_and,
      htake, endsWith_concat]
    refine and_congr_left fun _ => ?_
    cases j with
    | zero => simpa using ⟨u, [], by simp, .nil⟩
    | succ j => simpa [h j (by omega)] using fun _ => by omega
  · simp [Nat.not_lt.2 hjp]

lemma and_shiftLeft_one_ne_zero (state : BitVec w) {j : Nat} (hj : j < w) :
    state &&& (1#w <<< j) ≠ 0#w ↔ state.getLsbD j = true := by
  constructor
  · intro hne
    by_contra hbit
    refine hne (BitVec.eq_of_getLsbD_eq fun i hi => ?_)
    rcases eq_or_ne i j with rfl | hij
    · simp [hbit]
    · simp
      omega
  · intro hbit hzero
    have := congrArg (BitVec.getLsbD · j) hzero
    rw [BitVec.getLsbD_and, hbit] at this
    simp [hj] at this

section
variable {state : BitVec w} (hp : p.length ≤ w) (h : Tracks fits p u state)
include hp h

/-- The bit of the last cell is set at an occurrence of the segment. -/
lemma Tracks.accepts (hne : p ≠ []) :
    state &&& (1#w <<< (p.length - 1)) ≠ 0#w ↔ EndsWith fits p u := by
  have hlt : p.length - 1 < p.length := by
    have := length_pos_of_ne_nil hne
    omega
  have hbit := h (p.length - 1) (by omega)
  rw [Nat.sub_add_cancel (by omega), take_length] at hbit
  rw [and_shiftLeft_one_ne_zero _ (by omega), hbit]
  exact and_iff_right hlt

lemma Tracks.not_endsWith (hzero : state = 0#w) (j : Nat) (hj : j < p.length) :
    ¬ EndsWith fits (p.take (j + 1)) u := by
  intro hend
  have := (h j (by omega)).2 ⟨hj, hend⟩
  simp [hzero] at this

end

end ShiftAnd
