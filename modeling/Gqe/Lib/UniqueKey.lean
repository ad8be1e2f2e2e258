import Mathlib.Data.List.Pairwise
import Mathlib.Data.List.Perm.Subperm

/-!
# Lists of rows without duplicates

Rows are compared by a relation `agree`, such as having the same values in the columns of a key. A
list is unique for it if no two of its entries agree. Uniqueness is kept by what drops, reorders
or extends rows, and by pairing rows with at most one partner each.
-/

namespace UniqueKey

open List

variable {ρ σ τ : Type*} {agree : ρ → ρ → Prop} {rows rows' : List ρ}

/-- No two entries of the list agree. -/
def IsUnique (agree : ρ → ρ → Prop) (rows : List ρ) : Prop :=
  rows.Pairwise fun r s => ¬ agree r s

instance [DecidableRel agree] : Decidable (IsUnique agree rows) :=
  inferInstanceAs (Decidable (List.Pairwise _ _))

section

variable (hsymm : ∀ r s, agree r s → agree s r) (h : IsUnique agree rows)
include hsymm h

lemma IsUnique.perm (hperm : rows.Perm rows') :
    IsUnique agree rows' :=
  List.Pairwise.perm h hperm fun hrs hsr => hrs (hsymm _ _ hsr)

lemma IsUnique.subperm (hsub : rows'.Subperm rows) : IsUnique agree rows' := by
  obtain ⟨l, hl, hsub⟩ := hsub
  exact perm hsymm (List.Pairwise.sublist hsub h) hl

end

lemma exists_of_mem_right {S : ρ → σ → Prop} {images : List σ} (hS : List.Forall₂ S rows images)
    {y : σ} (hy : y ∈ images) : ∃ r ∈ rows, S r y := by
  induction hS with
  | nil => simp at hy
  | cons hry _ ih =>
    rcases mem_cons.1 hy with rfl | hy
    · exact ⟨_, by simp, hry⟩
    · obtain ⟨s, hs, hsy⟩ := ih hy
      exact ⟨s, by simp [hs], hsy⟩

variable {agree' : σ → σ → Prop}

lemma IsUnique.forall₂ {S : ρ → σ → Prop} {images : List σ} (hS : List.Forall₂ S rows images)
    (hagree : ∀ r ∈ rows, ∀ s ∈ rows, ∀ x y, S r x → S s y → agree' x y → agree r s)
    (h : IsUnique agree rows) : IsUnique agree' images := by
  induction hS with
  | nil => exact .nil
  | @cons r x rows images hrx hS ih =>
    obtain ⟨hr, h⟩ := pairwise_cons.1 h
    refine pairwise_cons.2 ⟨fun y hy hxy => ?_, ih (fun r hr s hs =>
      hagree r (by simp [hr]) s (by simp [hs])) h⟩
    obtain ⟨s, hs, hsy⟩ := exists_of_mem_right hS hy
    exact hr s hs (hagree r (by simp) s (by simp [hs]) x y hrx hsy hxy)

lemma IsUnique.map {f : ρ → σ} (hf : ∀ r ∈ rows, ∀ s ∈ rows, agree' (f r) (f s) → agree r s)
    (h : IsUnique agree rows) :
    IsUnique agree' (rows.map f) := by
  refine h.forall₂ (S := fun r x => x = f r) (by simp) ?_
  rintro r hr s hs _ _ rfl rfl hrs
  exact hf r hr s hs hrs

lemma IsUnique.mono {agree' : ρ → ρ → Prop} (hagree : ∀ r s, agree' r s → agree r s)
    (h : IsUnique agree rows) : IsUnique agree' rows :=
  List.Pairwise.imp (fun hrs h => hrs (hagree _ _ h)) h

lemma IsUnique.eq_of_agree (hsymm : ∀ r s, agree r s → agree s r)
    (h : IsUnique agree rows) {r s : ρ}
    (hr : r ∈ rows) (hs : s ∈ rows) (hrs : agree r s) : r = s := by
  have : Std.Symm fun r s => ¬ agree r s := ⟨fun r s hrs hsr => hrs (hsymm _ _ hsr)⟩
  by_contra hne
  exact List.Pairwise.forall h hr hs hne hrs

/-- Different entries are unique for equality, and for what implies it. -/
lemma isUnique_of_nodup (h : rows.Nodup) (heq : ∀ r ∈ rows, ∀ s ∈ rows, agree r s → r = s) :
    IsUnique agree rows :=
  h.imp_of_mem fun hr hs hne hrs => hne (heq _ hr _ hs hrs)

lemma isUnique_iff_of_nodup (hsymm : ∀ r s, agree r s → agree s r) (h : rows.Nodup) :
    IsUnique agree rows ↔ ∀ r ∈ rows, ∀ s ∈ rows, agree r s → r = s :=
  ⟨fun huniq _ hr _ hs => huniq.eq_of_agree hsymm hr hs, isUnique_of_nodup h⟩

/-- A property that only entries which agree can share is one of at most one entry. -/
lemma IsUnique.length_filter_le_one (h : IsUnique agree rows) {p : ρ → Bool}
    (hp : ∀ r ∈ rows, ∀ s ∈ rows, p r → p s → agree r s) : (rows.filter p).length ≤ 1 := by
  have hpw : (rows.filter p).Pairwise fun _ _ => False :=
    pairwise_filter.2 (List.Pairwise.imp_of_mem
      (fun hr hs hrs hpr hps => hrs (hp _ hr _ hs hpr hps)) h)
  cases hrows : rows.filter p with
  | nil => simp
  | cons r rest =>
    rw [hrows, pairwise_cons] at hpw
    simp [eq_nil_iff_forall_not_mem.2 hpw.1]

/-! ### Pairing -/

variable {right : List σ} {agreeRight : σ → σ → Prop} {agree' : τ → τ → Prop}
  {matching : ρ → σ → Bool} {pair : ρ → σ → τ}

/-- Pairs are unique for what identifies their left entry, if that has at most one partner. -/
lemma IsUnique.pair_left (h : IsUnique agree rows)
    (hmatch : ∀ l ∈ rows, right.Pairwise fun r r' => ¬ (matching l r ∧ matching l r'))
    (hpair : ∀ l ∈ rows, ∀ l' ∈ rows, ∀ r r', agree' (pair l r) (pair l' r') → agree l l') :
    IsUnique agree' (rows.flatMap fun l => (right.filter (matching l)).map (pair l)) := by
  refine pairwise_flatMap.2
    ⟨fun l hl => ?_, List.Pairwise.imp_of_mem (fun hl hl' hll' => ?_) h⟩
  · refine pairwise_map.2 (pairwise_filter.2 ?_)
    exact (hmatch l hl).imp fun hrr' hr hr' _ => hrr' ⟨hr, hr'⟩
  · intro x hx y hy hxy
    obtain ⟨r, -, rfl⟩ := mem_map.1 hx
    obtain ⟨r', -, rfl⟩ := mem_map.1 hy
    exact hll' (hpair _ hl _ hl' _ _ hxy)

/-- Pairs are unique for what identifies their right entry, if that has at most one partner. -/
lemma IsUnique.pair_right (hsymm : ∀ r s, agreeRight r s → agreeRight s r)
    (h : IsUnique agreeRight right)
    (hmatch : ∀ r ∈ right, rows.Pairwise fun l l' => ¬ (matching l r ∧ matching l' r))
    (hpair : ∀ l ∈ rows, ∀ l' ∈ rows, ∀ r r', agree' (pair l r) (pair l' r') → agreeRight r r') :
    IsUnique agree' (rows.flatMap fun l => (right.filter (matching l)).map (pair l)) := by
  have hrows : rows.Pairwise fun l l' => ∀ r ∈ right, ¬ (matching l r ∧ matching l' r) :=
    pairwise_iff_forall_sublist.2 fun hsub r hr =>
      pairwise_iff_forall_sublist.1 (hmatch r hr) hsub
  refine pairwise_flatMap.2 ⟨fun l hl => ?_, hrows.imp_of_mem fun hl hl' hll' => ?_⟩
  · refine pairwise_map.2 (pairwise_filter.2 ?_)
    exact List.Pairwise.imp (fun hrr' _ _ h => hrr' (hpair _ hl _ hl _ _ h)) h
  · intro x hx y hy hxy
    obtain ⟨r, hr, rfl⟩ := mem_map.1 hx
    obtain ⟨r', hr', rfl⟩ := mem_map.1 hy
    rw [mem_filter] at hr hr'
    -- both pairs have the same right entry, which has two partners
    obtain rfl := h.eq_of_agree hsymm hr.1 hr'.1 (hpair _ hl _ hl' _ _ hxy)
    exact hll' r hr.1 ⟨hr.2, hr'.2⟩

end UniqueKey
