import Mathlib.Algebra.Order.Ring.Int
import Mathlib.Algebra.BigOperators.Group.List.Basic
import Mathlib.Data.List.Infix
import Mathlib.Data.List.Forall2
import Mathlib.Tactic.Lemma
import Mathlib.Tactic.Cases

/-!
# Patterns with wildcards

A pattern is a list of cells, which fit single characters, and of wildcards for any sequence. A
string matches it if it starts with its first segment, ends with its last, and has the segments in
between in this order and without overlap. The segments in between may be looked for one after
another, each at its first occurrence.
-/

namespace Wildcard

open List

variable {κ α : Type*} {fits : κ → α → Bool}

/-- A cell, or the wildcard for any sequence of characters. -/
inductive Item (κ : Type*) where
  | cell (k : κ)
  | many
  deriving DecidableEq

/-! ### Languages -/

/-- The whole string matches the pattern. -/
@[simp] def matchesPattern (fits : κ → α → Bool) : List (Item κ) → List α → Bool
  | [], s => s.isEmpty
  | .cell _ :: _, [] => false
  | .cell k :: p, c :: s => fits k c && matchesPattern fits p s
  | .many :: p, s => s.tails.any (matchesPattern fits p)

/-- A segment of cells fits a string of the same length. -/
abbrev Fits (fits : κ → α → Bool) (p : List κ) (s : List α) : Prop :=
  List.Forall₂ (fun k c => fits k c = true) p s

/-- The segments fit parts of the string, in this order and without overlap. -/
def Occur (fits : κ → α → Bool) : List (List κ) → List α → Prop
  | [], _ => True
  | p :: ps, s => ∃ u v w, s = u ++ v ++ w ∧ Fits fits p v ∧ Occur fits ps w

/-- The string starts with `p`, ends with `q`, and has the segments `ps` in between. -/
def Decomposes (fits : κ → α → Bool) (p : List κ) (ps : List (List κ)) (q : List κ) (s : List α) :
    Prop :=
  ∃ u v w, s = u ++ v ++ w ∧ Fits fits p u ∧ Occur fits ps v ∧ Fits fits q w

/-- The segment before the first wildcard, and the segments after each wildcard. -/
@[simp] def segments : List (Item κ) → List κ × List (List κ)
  | [] => ([], [])
  | .cell k :: p => (k :: (segments p).1, (segments p).2)
  | .many :: p => ([], (segments p).1 :: (segments p).2)

def cells (p : List (Item κ)) : List κ :=
  p.filterMap fun
    | .cell k => some k
    | .many => none

/-! ### Segments -/

variable {p : List (Item κ)} {ps : List (List κ)} {q : List κ} {s : List α} {k : κ}

lemma segments_snd_eq_nil : (segments p).2 = [] ↔ .many ∉ p := by
  induction p with
  | nil => simp
  | cons i p ih => cases i <;> simp [ih]

lemma segments_fst_eq_nil (hp : p ≠ []) : (segments p).1 = [] ↔ p.head? = some .many := by
  rcases p with _ | ⟨_ | _, p⟩ <;> simp_all

lemma flatten_segments (p : List (Item κ)) :
    (segments p).1 ++ (segments p).2.flatten = cells p := by
  induction p with
  | nil => rfl
  | cons i p ih => cases i <;> simp [cells, ih]

lemma length_segments_le (p : List (Item κ)) :
    (segments p).1.length + (segments p).2.flatten.length ≤ p.length := by
  rw [← length_append, flatten_segments]
  exact length_filterMap_le _ _

lemma cell_mem_of_segments
    (h : k ∈ (segments p).1 ++ (segments p).2.flatten) : .cell k ∈ p := by
  rw [flatten_segments] at h
  obtain ⟨i, hi, hk⟩ := mem_filterMap.1 h
  cases i <;> simp_all

lemma getLastD_segments_eq_nil (hp : p ≠ []) :
    (segments p).2.getLastD (segments p).1 = [] ↔ p.getLast? = some .many := by
  induction p with
  | nil => exact absurd rfl hp
  | cons i p ih =>
    by_cases hnil : p = []
    · subst hnil
      cases i <;> simp
    · rw [getLast?_cons_of_ne_nil hnil]
      cases i with
      | cell k =>
        rcases hss : (segments p).2 with _ | ⟨q, qs⟩
        · have hlast : p.getLast? ≠ some .many := fun h =>
            segments_snd_eq_nil.1 hss (mem_of_getLast? h)
          simp [hss, hlast]
        · simpa [hss, getLast?_cons] using ih hnil
      | many => simpa [getLast?_cons] using ih hnil

lemma many_mem_of_segments (h : (segments p).2 = ps ++ [q]) : .many ∈ p := by
  by_contra hmany
  simp [segments_snd_eq_nil.2 hmany] at h

lemma last_segment_eq_nil (h : (segments p).2 = ps ++ [q]) : q = [] ↔ p.getLast? = some .many := by
  rw [← getLastD_segments_eq_nil (ne_nil_of_mem (many_mem_of_segments h)), h]
  simp

lemma matchesPattern_many :
    matchesPattern fits (.many :: p) s ↔ ∃ u v, s = u ++ v ∧ matchesPattern fits p v := by
  simp only [matchesPattern, any_eq_true, mem_tails]
  constructor
  · rintro ⟨v, ⟨u, rfl⟩, h⟩
    exact ⟨u, v, rfl, h⟩
  · rintro ⟨u, v, rfl, h⟩
    exact ⟨v, ⟨u, rfl⟩, h⟩

lemma matchesPattern_cell : matchesPattern fits (.cell k :: p) s ↔
      ∃ c t, s = c :: t ∧ fits k c ∧ matchesPattern fits p t := by
  cases s <;> simp

lemma matchesPattern_append {q : List (Item κ)} : matchesPattern fits (p ++ q) s ↔
      ∃ u v, s = u ++ v ∧ matchesPattern fits p u ∧ matchesPattern fits q v := by
  induction p generalizing s with
  | nil =>
    constructor
    · exact fun h => ⟨[], s, rfl, rfl, h⟩
    · rintro ⟨u, v, rfl, hu, hv⟩
      obtain rfl := isEmpty_iff.1 hu
      exact hv
  | cons i p ih =>
    cases i with
    | cell k =>
      simp only [cons_append, matchesPattern_cell, ih]
      constructor
      · rintro ⟨c, _, rfl, hc, u, v, rfl, hu, hv⟩
        exact ⟨c :: u, v, rfl, ⟨c, u, rfl, hc, hu⟩, hv⟩
      · rintro ⟨_, v, rfl, ⟨c, u, rfl, hc, hu⟩, hv⟩
        exact ⟨c, u ++ v, rfl, hc, u, v, rfl, hu, hv⟩
    | many =>
      simp only [cons_append, matchesPattern_many, ih]
      constructor
      · rintro ⟨x, _, rfl, u, v, rfl, hu, hv⟩
        exact ⟨x ++ u, v, by simp, ⟨x, u, rfl, hu⟩, hv⟩
      · rintro ⟨_, v, rfl, ⟨x, u, rfl, hu⟩, hv⟩
        exact ⟨x, u ++ v, by simp, u, v, rfl, hu, hv⟩

lemma matches_many_many :
    matchesPattern fits (.many :: .many :: p) s ↔ matchesPattern fits (.many :: p) s := by
  simp only [matchesPattern_many]
  constructor
  · rintro ⟨u, _, rfl, v, w, rfl, hw⟩
    exact ⟨u ++ v, w, by simp, hw⟩
  · exact fun h => ⟨[], s, rfl, h⟩

/-- A wildcard for one character may change places with a wildcard for any sequence. -/
lemma matches_many_cell (hk : ∀ c, fits k c = true) :
    matchesPattern fits (.many :: .cell k :: p) s ↔
      matchesPattern fits (.cell k :: .many :: p) s := by
  simp only [matchesPattern_many, matchesPattern_cell, hk, true_and]
  constructor
  · rintro ⟨u, _, rfl, c, v, rfl, hv⟩
    obtain ⟨d, w, hw⟩ := exists_cons_of_ne_nil (append_ne_nil_of_right_ne_nil u
      (cons_ne_nil c []))
    exact ⟨d, w ++ v, by rw [← singleton_append, ← append_assoc, hw]; rfl, w, v, rfl, hv⟩
  · rintro ⟨c, _, rfl, u, v, rfl, hv⟩
    obtain ⟨w, d, hw⟩ := (eq_nil_or_concat' (c :: u)).resolve_left (cons_ne_nil c u)
    exact ⟨w, d :: v, by rw [← cons_append, hw]; simp, d, v, rfl, hv⟩

lemma length_le_of_matches (h : matchesPattern fits p s) :
    (segments p).1.length + (segments p).2.flatten.length ≤ s.length := by
  induction p generalizing s with
  | nil => simp
  | cons i p ih =>
    cases i with
    | cell k =>
      obtain ⟨c, t, rfl, -, ht⟩ := matchesPattern_cell.1 h
      have := ih ht
      simp only [segments, length_cons]
      omega
    | many =>
      obtain ⟨u, v, rfl, hv⟩ := matchesPattern_many.1 h
      have := ih hv
      simp only [segments, flatten_cons, length_append, length_nil]
      omega

lemma fits_cons {p : List κ} :
    Fits fits (k :: p) s ↔ ∃ c t, s = c :: t ∧ fits k c ∧ Fits fits p t := by
  cases s <;> simp

variable {c : α}

lemma fits_cons_cons {p : List κ} : Fits fits (k :: p) (c :: s) ↔ fits k c ∧ Fits fits p s :=
  forall₂_cons

lemma matches_iff_fits (hp : (segments p).2 = []) :
    matchesPattern fits p s ↔ Fits fits (segments p).1 s := by
  induction p generalizing s with
  | nil => cases s <;> simp
  | cons i p ih =>
    cases i with
    | cell k => simp [matchesPattern_cell, fits_cons, ih hp]
    | many => simp at hp

lemma decomposes_nil_left :
    Decomposes fits [] ps q s ↔ ∃ v w, s = v ++ w ∧ Occur fits ps v ∧ Fits fits q w := by
  simp [Decomposes]

lemma decomposes_cons_left {p : List κ} :
    Decomposes fits (k :: p) ps q s ↔ ∃ c t, s = c :: t ∧ fits k c ∧ Decomposes fits p ps q t := by
  constructor
  · rintro ⟨_, v, w, rfl, hp, hv, hw⟩
    obtain ⟨c, u, rfl, hc, hu⟩ := fits_cons.1 hp
    exact ⟨c, u ++ v ++ w, rfl, hc, u, v, w, rfl, hu, hv, hw⟩
  · rintro ⟨c, _, rfl, hc, u, v, w, rfl, hu, hv, hw⟩
    exact ⟨c :: u, v, w, rfl, .cons hc hu, hv, hw⟩

/-- A pattern with a wildcard for sequences. -/
lemma matches_iff_decomposes (hp : (segments p).2 = ps ++ [q]) :
    matchesPattern fits p s ↔ Decomposes fits (segments p).1 ps q s := by
  induction p generalizing ps s with
  | nil => simp at hp
  | cons i p ih =>
    cases i with
    | cell k => simp [matchesPattern_cell, decomposes_cons_left, ih hp]
    | many =>
      rw [matchesPattern_many]
      simp only [segments] at hp ⊢
      rw [decomposes_nil_left]
      rcases ps with _ | ⟨p₁, ps⟩
      · -- the only wildcard
        obtain ⟨rfl, hnil⟩ : (segments p).1 = q ∧ (segments p).2 = [] := by simpa using hp
        simp [matches_iff_fits hnil, Occur]
      · obtain ⟨rfl, hps⟩ : (segments p).1 = p₁ ∧ (segments p).2 = ps ++ [q] := by simpa using hp
        simp only [ih hps]
        constructor
        · rintro ⟨x, _, rfl, u, v, w, rfl, hu, hv, hw⟩
          exact ⟨x ++ u ++ v, w, by simp, ⟨x, u, v, rfl, hu, hv⟩, hw⟩
        · rintro ⟨_, w, rfl, ⟨x, u, v, rfl, hu, hv⟩, hw⟩
          exact ⟨x, u ++ v ++ w, by simp, u, v, w, rfl, hu, hv, hw⟩

/-- The parts are found at the two ends of the string. -/
lemma decomposes_iff {p : List κ} (h : p.length + q.length ≤ s.length) :
    Decomposes fits p ps q s ↔ Fits fits p (s.take p.length) ∧
      Fits fits q (s.drop (s.length - q.length)) ∧
      Occur fits ps ((s.drop p.length).take (s.length - p.length - q.length)) := by
  constructor
  · rintro ⟨u, v, w, rfl, hu, hv, hw⟩
    have hdrop : (u ++ v ++ w).length - q.length = (u ++ v).length := by
      rw [length_append, hw.length_eq]
      omega
    have htake : (u ++ v ++ w).length - p.length - q.length = v.length := by
      rw [length_append, length_append, hw.length_eq, hu.length_eq]
      omega
    rw [hdrop, htake, hu.length_eq]
    simpa using ⟨hu, hw, hv⟩
  · rintro ⟨hu, hw, hv⟩
    refine ⟨_, _, _, ?_, hu, hv, hw⟩
    have hdrop : s.length - q.length = p.length + (s.length - p.length - q.length) := by omega
    rw [hdrop, ← drop_drop, append_assoc, take_append_drop, take_append_drop]

lemma decomposes_iff_fits {p : List κ} (h : s.length = p.length + q.length) :
    Decomposes fits p [] q s ↔ Fits fits (p ++ q) s := by
  have hlen : s.length - q.length = p.length := by omega
  rw [decomposes_iff (by omega), hlen]
  constructor
  · rintro ⟨hp, hq, -⟩
    have happ : Fits fits (p ++ q) (s.take p.length ++ s.drop p.length) :=
      rel_append hp hq
    rwa [take_append_drop] at happ
  · intro hfits
    have htake := forall₂_take p.length hfits
    have hdrop := forall₂_drop p.length hfits
    rw [take_left] at htake
    rw [drop_left] at hdrop
    exact ⟨htake, hdrop, trivial⟩

/-! ### Occurrences in order -/

section
variable {p : List κ} {u v w : List α}

lemma Occur.append_left (h : Occur fits ps v) : Occur fits ps (u ++ v) := by
  cases ps with
  | nil => trivial
  | cons p ps =>
    obtain ⟨a, b, c, rfl, hb, hc⟩ := h
    exact ⟨u ++ a, b, c, by simp, hb, hc⟩

lemma Occur.append_right (h : Occur fits ps u) : Occur fits ps (u ++ v) := by
  induction ps generalizing u with
  | nil => trivial
  | cons p ps ih =>
    obtain ⟨a, b, c, rfl, hb, hc⟩ := h
    exact ⟨a, b, c ++ v, by simp, hb, ih hc⟩

lemma Occur.sum_length_le (h : Occur fits ps s) : (ps.map length).sum ≤ s.length := by
  induction ps generalizing s with
  | nil => simp
  | cons p ps ih =>
    obtain ⟨a, b, c, rfl, hb, hc⟩ := h
    have := ih hc
    have := hb.length_eq
    simp only [map_cons, sum_cons, length_append]
    omega

lemma occur_filter_ne_nil [DecidableEq κ] :
    Occur fits (ps.filter (· ≠ [])) s ↔ Occur fits ps s := by
  induction ps generalizing s with
  | nil => rfl
  | cons p ps ih =>
    by_cases hp : p = []
    · subst hp
      refine ih.trans ⟨fun h => ⟨[], [], s, rfl, .nil, h⟩, ?_⟩
      rintro ⟨a, b, c, rfl, -, h⟩
      exact h.append_left
    · rw [filter_cons_of_pos (by simpa using hp)]
      simp only [Occur, ih]

lemma decomposes_filter_ne_nil [DecidableEq κ] :
    Decomposes fits p (ps.filter (· ≠ [])) q s ↔ Decomposes fits p ps q s := by
  simp only [Decomposes, occur_filter_ne_nil]

lemma occur_concat :
    Occur fits (ps ++ [q]) s ↔ ∃ u v w, s = u ++ v ++ w ∧ Occur fits ps u ∧ Fits fits q v := by
  induction ps generalizing s with
  | nil => simp [Occur]
  | cons p ps ih =>
    simp only [cons_append, Occur, ih]
    constructor
    · rintro ⟨a, b, _, rfl, hb, u, v, w, rfl, hu, hv⟩
      exact ⟨a ++ b ++ u, v, w, by simp, ⟨a, b, u, rfl, hb, hu⟩, hv⟩
    · rintro ⟨_, v, w, rfl, ⟨a, b, u, rfl, hb, hu⟩, hv⟩
      exact ⟨a, b, u ++ v ++ w, by simp, hb, u, v, w, rfl, hu, hv⟩

/-! ### Ends of strings -/

/-- The segment fits the end of the string. -/
def EndsWith (fits : κ → α → Bool) (p : List κ) (s : List α) : Prop :=
  ∃ u v, s = u ++ v ∧ Fits fits p v

/-- The last segment is at the end of the string, or anywhere after the others. -/
lemma decomposes_iff_endsWith :
    Decomposes fits p ps q s ↔ Decomposes fits p (ps ++ [q]) [] s ∧ EndsWith fits q s := by
  constructor
  · rintro ⟨u, v, w, rfl, hu, hv, hw⟩
    refine ⟨⟨u, v ++ w, [], by simp, hu, ?_, .nil⟩, ⟨u ++ v, w, rfl, hw⟩⟩
    exact occur_concat.2 ⟨v, w, [], by simp, hv, hw⟩
  · rintro ⟨⟨u, v, w, rfl, hu, hv, hw⟩, a, b, hend, hb⟩
    obtain rfl : w = [] := by simpa using hw
    obtain ⟨x, y, z, rfl, hx, hy⟩ := occur_concat.1 hv
    -- the end is not before the other segments
    have hlen : (u ++ x).length ≤ a.length := by
      have := congrArg length hend
      have := hb.length_eq
      have := hy.length_eq
      simp only [length_append] at *
      omega
    have happ : (u ++ x) ++ (y ++ z) = a ++ b := by simpa using hend
    obtain ⟨t, rfl, -⟩ : ∃ t, a = (u ++ x) ++ t ∧ y ++ z = t ++ b := by
      rcases append_eq_append_iff.1 happ with ⟨t, ht, htb⟩ | ⟨t, ht, htb⟩
      · exact ⟨t, ht, htb⟩
      · obtain rfl : t = [] := length_eq_zero_iff.1 (by
          rw [ht, length_append] at hlen
          omega)
        exact ⟨[], by simpa using ht.symm, by simpa using htb.symm⟩
    exact ⟨u, x ++ t, b, by rw [hend]; simp, hu, hx.append_right, hb⟩

/-! ### The first occurrence -/

lemma fits_concat : Fits fits (p ++ [k]) (s ++ [c]) ↔ Fits fits p s ∧ fits k c := by
  rw [Fits, ← forall₂_reverse_iff]
  simp [and_comm]

lemma endsWith_concat : EndsWith fits (p ++ [k]) (s ++ [c]) ↔ EndsWith fits p s ∧ fits k c := by
  constructor
  · rintro ⟨u, v, h, hv⟩
    rcases eq_nil_or_concat' v with rfl | ⟨v, d, rfl⟩
    · simp at hv
    · rw [← append_assoc] at h
      obtain ⟨rfl, hcd⟩ := append_inj' h rfl
      obtain rfl : c = d := by simpa using hcd
      exact ⟨⟨u, v, rfl, (fits_concat.1 hv).1⟩, (fits_concat.1 hv).2⟩
  · rintro ⟨⟨u, v, rfl, hv⟩, hc⟩
    exact ⟨u, v ++ [c], by simp, fits_concat.2 ⟨hv, hc⟩⟩

lemma not_endsWith_nil (hp : p ≠ []) : ¬ EndsWith fits p ([] : List α) := by
  rintro ⟨u, v, h, hv⟩
  obtain ⟨rfl, rfl⟩ := append_eq_nil_iff.1 h.symm
  exact hp (by simpa using hv)

/-- An occurrence within an extended string either was there before, or is at the end. -/
lemma occur_singleton_concat :
    Occur fits [p] (u ++ [c]) ↔ Occur fits [p] u ∨ EndsWith fits p (u ++ [c]) := by
  constructor
  · rintro ⟨a, b, w, h, hb, -⟩
    rcases eq_nil_or_concat' w with rfl | ⟨w, d, rfl⟩
    · exact .inr ⟨a, b, by simpa using h, hb⟩
    · rw [← append_assoc] at h
      exact .inl ⟨a, b, w, (append_inj' h rfl).1, hb, trivial⟩
  · rintro (h | ⟨a, b, h, hb⟩)
    · exact h.append_right
    · exact ⟨a, b, [], by simpa using h, hb, trivial⟩

/-- The search for a segment is over at its first occurrence. -/
lemma occur_cons_iff_of_endsWith (hfst : ¬ Occur fits [p] u)
    (hend : EndsWith fits p (u ++ [c])) : Occur fits (p :: ps) (u ++ c :: v) ↔ Occur fits ps v := by
  constructor
  · rintro ⟨a, b, w, h, hb, hw⟩
    have h : (u ++ [c]) ++ v = (a ++ b) ++ w := by simpa using h
    rcases append_eq_append_iff.1 h with ⟨x, -, rfl⟩ | ⟨x, hx, rfl⟩
    · exact hw.append_left
    · -- an earlier end would be an earlier occurrence
      rcases eq_nil_or_concat' x with rfl | ⟨x, d, rfl⟩
      · simpa using hw
      · rw [← append_assoc] at hx
        exact absurd ⟨a, b, x, (append_inj' hx rfl).1, hb, trivial⟩ hfst
  · intro hv
    obtain ⟨a, b, h, hb⟩ := hend
    exact ⟨a, b, v, by rw [← h]; simp, hb, hv⟩

/-- The search for a segment may start after a string without an occurrence, of which no end fits a
start of the segment. -/
lemma occur_cons_append_iff (hfst : ¬ Occur fits [p] u)
    (h : ∀ j < p.length, ¬ EndsWith fits (p.take (j + 1)) u) :
    Occur fits (p :: ps) (u ++ v) ↔ Occur fits (p :: ps) v := by
  refine ⟨?_, Occur.append_left⟩
  rintro ⟨a, b, w, heq, hb, hw⟩
  rw [append_assoc] at heq
  rcases append_eq_append_iff.1 heq with ⟨x, -, rfl⟩ | ⟨x, rfl, hx⟩
  · exact ⟨x, b, w, by simp, hb, hw⟩
  · rcases append_eq_append_iff.1 hx with ⟨y, rfl, -⟩ | ⟨y, rfl, rfl⟩
    · exact absurd ⟨a, b, y, by simp, hb, trivial⟩ hfst
    · rcases x with _ | ⟨d, x⟩
      · exact ⟨[], y, w, rfl, by simpa using hb, hw⟩
      · -- the occurrence starts in `u` and ends in `v`
        have hfit := forall₂_take (x.length + 1) hb
        have hlen := hb.length_eq
        simp only [length_cons, length_append] at hlen
        exact absurd ⟨a, d :: x, rfl, by simpa using hfit⟩ (h x.length (by omega))

end

end Wildcard
