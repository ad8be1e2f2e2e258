import Gqe.Lib.Grouping
import Mathlib.Data.List.Flatten
import Mathlib.Data.List.GetD

/-!
# Joins of lists

Joins of two lists by a predicate on pairs, how they go over into the joins of the positions of the
elements, and what becomes of them when an input is split.
-/

namespace Gqe.ListJoin

open List Grouping Function Bool

variable {α β γ δ : Type*}

/-- The pairs that match. -/
def inner (m : α → β → Bool) (xs : List α) (ys : List β) : List (α × β) :=
  xs.flatMap fun x => (ys.filter (m x)).map (x, ·)

/-- The pairs that match, and the elements on the left that match nothing. -/
def leftOuter (m : α → β → Bool) (xs : List α) (ys : List β) : List (α × Option β) :=
  xs.flatMap fun x =>
    if ys.any (m x) then (ys.filter (m x)).map fun y => (x, some y) else [(x, none)]

/-- The elements on the left that match something. -/
def semi (m : α → β → Bool) (xs : List α) (ys : List β) : List α :=
  xs.filter fun x => ys.any (m x)

/-- The elements on the left that match nothing. -/
def anti (m : α → β → Bool) (xs : List α) (ys : List β) : List α :=
  xs.filter fun x => !ys.any (m x)

/-- The pairs that match, and the elements on both sides that match nothing. -/
def fullOuter (m : α → β → Bool) (xs : List α) (ys : List β) : List (Option α × Option β) :=
  (leftOuter m xs ys).map (Prod.map some id) ++ (anti (fun y x => m x y) ys xs).map fun y =>
    (none, some y)

/-! ### Elements and positions -/

section Positions

variable (m : α → β → Bool) (f : γ → α) (g : δ → β) (is : List γ) (js : List δ)

lemma inner_map : inner m (is.map f) (js.map g) =
    (inner (fun i j => m (f i) (g j)) is js).map (Prod.map f g) := by
  simp [inner, flatMap_map, map_flatMap, filter_map, comp_def]

lemma leftOuter_map : leftOuter m (is.map f) (js.map g) =
    (leftOuter (fun i j => m (f i) (g j)) is js).map (Prod.map f (Option.map g)) := by
  simp only [leftOuter, flatMap_map, map_flatMap, filter_map, any_map, comp_def]
  congr 1
  funext i
  split_ifs <;> simp

lemma semi_map : semi m (is.map f) (js.map g) = (semi (fun i j => m (f i) (g j)) is js).map f := by
  simp [semi, filter_map, comp_def]

lemma anti_map : anti m (is.map f) (js.map g) = (anti (fun i j => m (f i) (g j)) is js).map f := by
  simp [anti, filter_map, comp_def]

end Positions

section Congr

variable {m m' : α → β → Bool} {xs : List α} {ys : List β}

section

variable (h : ∀ x ∈ xs, ∀ y ∈ ys, m x y = m' x y)
include h

lemma any_congr_of_mem {x : α} (hx : x ∈ xs) : ys.any (m x) = ys.any (m' x) := by
  rw [Bool.eq_iff_iff, any_eq_true, any_eq_true]
  exact exists_congr fun y => and_congr_right fun hy => by rw [h x hx y hy]

lemma filter_congr_of_mem {x : α} (hx : x ∈ xs) : ys.filter (m x) = ys.filter (m' x) :=
  filter_congr fun y hy => h x hx y hy

lemma inner_congr : inner m xs ys = inner m' xs ys := by
  apply flatMap_congr
  intro x hx
  rw [filter_congr_of_mem h hx]

lemma leftOuter_congr : leftOuter m xs ys = leftOuter m' xs ys := by
  apply flatMap_congr
  intro x hx
  rw [filter_congr_of_mem h hx, any_congr_of_mem h hx]

lemma semi_congr : semi m xs ys = semi m' xs ys :=
  filter_congr fun _ hx => any_congr_of_mem h hx

lemma anti_congr : anti m xs ys = anti m' xs ys :=
  filter_congr fun _ hx => by rw [any_congr_of_mem h hx]

lemma fullOuter_congr : fullOuter m xs ys = fullOuter m' xs ys := by
  have hanti : anti (fun y x => m x y) ys xs = anti (fun y x => m' x y) ys xs :=
    anti_congr fun y hy x hx => h x hx y hy
  rw [fullOuter, leftOuter_congr h, hanti, fullOuter]

end

end Congr

/-! ### The order of the inputs -/

section Perm

variable (m : α → β → Bool) {xs xs' : List α} {ys ys' : List β}

section

variable (hxs : xs.Perm xs')
include hxs

lemma inner_perm (hys : ys.Perm ys') : (inner m xs ys).Perm (inner m xs' ys') :=
  hxs.flatMap fun x _ => (hys.filter (m x)).map _

lemma leftOuter_perm (hys : ys.Perm ys') : (leftOuter m xs ys).Perm (leftOuter m xs' ys') := by
  refine hxs.flatMap fun x _ => ?_
  rw [hys.any_eq]
  split_ifs
  · exact (hys.filter (m x)).map _
  · rfl

lemma semi_perm (hys : ys.Perm ys') : (semi m xs ys).Perm (semi m xs' ys') := by
  refine (hxs.filter _).trans (.of_eq (filter_congr fun x _ => ?_))
  rw [hys.any_eq]

lemma anti_perm (hys : ys.Perm ys') : (anti m xs ys).Perm (anti m xs' ys') := by
  refine (hxs.filter _).trans (.of_eq (filter_congr fun x _ => ?_))
  rw [hys.any_eq]

end

end Perm

section Partners

variable {m : α → β → Bool} {p : β → Bool} {x : α} {ys : List β}

lemma filter_partners (h : ∀ y ∈ ys, m x y → p y) :
    (ys.filter p).filter (m x) = ys.filter (m x) := by
  rw [filter_filter]
  apply filter_congr
  intro y hy
  cases hm : m x y with
  | false => rfl
  | true => simp [h y hy hm]

lemma any_partners (h : ∀ y ∈ ys, m x y → p y) : (ys.filter p).any (m x) = ys.any (m x) := by
  rw [any_filter, Bool.eq_iff_iff, any_eq_true, any_eq_true]
  refine exists_congr fun y => and_congr_right fun hy => ?_
  rw [Bool.and_eq_true, and_iff_right_of_imp (h y hy)]

end Partners

/-! ### Groups joined back -/

lemma map_filter_eq_flatMap (p : α → Bool) (g : α → β) (xs : List α) :
    (xs.filter p).map g = xs.flatMap fun x => if p x then [g x] else [] := by
  induction xs with
  | nil => rfl
  | cons x xs ih =>
    rw [flatMap_cons, ← ih]
    cases h : p x <;> simp [h]

variable {m : α → β → Bool} {xs : List α}

/-- The values of the groups of a list joined back to the list, by keys that may be excluded from
matching: every element meets the value of its own group, once. -/
lemma inner_aggregate {κ : Type*} [DecidableEq κ] {key : α → κ}
    {f : κ → List α → β} (comparable : κ → Bool)
    (hm : ∀ x ∈ xs, ∀ y ∈ xs, m x (f (key y) (group key xs (key y))) =
      (comparable (key x) && decide (key y = key x))) :
    inner m xs (aggregate id key f xs) = (xs.filter fun x => comparable (key x)).map
        fun x => (x, f (key x) (group key xs (key x))) := by
  have hpartners : ∀ x ∈ xs, (aggregate id key f xs).filter (m x) =
      if comparable (key x) then [f (key x) (group key xs (key x))] else [] := by
    intro x hx
    have hkey : ∀ k ∈ (xs.map key).dedup, m x (f k (group key xs k)) =
        (comparable (key x) && decide (k = key x)) := by
      intro k hk
      obtain ⟨y, hy, rfl⟩ := mem_map.1 (mem_dedup.1 hk)
      exact hm x hx y hy
    have hgroup : (xs.map key).dedup.filter (fun k => decide (k = key x)) = [key x] := by
      have hnd : ((xs.map key).dedup.map id).Nodup := by
        rw [map_id]
        exact (xs.map key).nodup_dedup
      exact group_of_nodup hnd (mem_dedup.2 (mem_map_of_mem hx))
    rw [aggregate, id, filter_map]
    simp only [comp_def]
    rw [filter_congr hkey]
    cases comparable (key x) with
    | false => simp
    | true => simp [hgroup]
  rw [map_filter_eq_flatMap]
  apply flatMap_congr
  intro x hx
  rw [hpartners x hx]
  split_ifs <;> rfl

/-- A list joined to values of its elements by keys that are all different. -/
lemma inner_map_of_nodup {κ : Type*} [DecidableEq κ] {key : α → κ} {f : α → β}
    (hkey : (xs.map key).Nodup) (hm : ∀ x ∈ xs, ∀ y ∈ xs, m x (f y) = decide (key y = key x)) :
    inner m xs (xs.map f) = xs.map fun x => (x, f x) := by
  have hpartners : ∀ x ∈ xs, (xs.map f).filter (m x) = [f x] := by
    intro x hx
    have hgroup : xs.filter (fun y => decide (key y = key x)) = [x] :=
      group_of_nodup hkey hx
    rw [filter_map]
    simp only [comp_def]
    rw [filter_congr (hm x hx), hgroup, map_singleton]
  have hflat : xs.map (fun x => (x, f x)) = xs.flatMap fun x => [(x, f x)] := map_eq_flatMap
  rw [hflat]
  apply flatMap_congr
  intro x hx
  rw [hpartners x hx, map_singleton]

variable {ys : List β}

lemma mem_inner {p : α × β} : p ∈ inner m xs ys ↔ p.1 ∈ xs ∧ p.2 ∈ ys ∧ m p.1 p.2 := by
  constructor
  · intro h
    obtain ⟨x, hx, hp⟩ := mem_flatMap.1 h
    obtain ⟨y, hy, rfl⟩ := mem_map.1 hp
    exact ⟨hx, mem_filter.1 hy⟩
  · rintro ⟨hx, hy⟩
    exact mem_flatMap.2 ⟨p.1, hx, mem_map.2 ⟨p.2, mem_filter.2 hy, rfl⟩⟩

lemma inner_and (m : α → β → Bool) (q : α × β → Bool) (xs : List α) (ys : List β) :
    inner (fun x y => m x y && q (x, y)) xs ys = (inner m xs ys).filter q := by
  simp [inner, filter_flatMap, filter_map, Bool.and_comm]

lemma inner_eq_nil (h : ∀ x ∈ xs, ∀ y ∈ ys, m x y = false) : inner m xs ys = [] := by
  rw [inner, flatMap_eq_nil_iff]
  intro x hx
  rw [map_eq_nil_iff, filter_eq_nil_iff]
  intro y hy
  simp [h x hx y hy]

/-! ### Split inputs -/

section Split

variable (m : α → β → Bool)

lemma inner_append_right (xs : List α) (ys zs : List β) :
    (inner m xs (ys ++ zs)).Perm (inner m xs ys ++ inner m xs zs) := by
  simp only [inner, filter_append, map_append]
  exact (flatMap_append_perm ..).symm

/-- The order of the pairs is all that depends on the parts of the right input. -/
lemma inner_flatMap_right (xs : List α) (yss : List γ) (f : γ → List β) :
    (inner m xs (yss.flatMap f)).Perm (yss.flatMap fun ys => inner m xs (f ys)) := by
  induction yss with
  | nil => simp [inner]
  | cons ys yss ih =>
    exact (inner_append_right m xs _ _).trans (ih.append_left _)

/-- The sides of an inner join can be exchanged. -/
lemma inner_swap (xs : List α) (ys : List β) :
    ((inner (fun y x => m x y) ys xs).map Prod.swap).Perm (inner m xs ys) := by
  have hsingle : ∀ y, inner m xs [y] = (xs.filter (m · y)).map (·, y) := by
    intro y
    induction xs with
    | nil => rfl
    | cons x xs ih =>
      rw [inner, flatMap_cons, ← inner, ih]
      cases h : m x y <;> simp [h]
  have hsplit := inner_flatMap_right m xs ys fun y => [y]
  rw [flatMap_singleton' ys] at hsplit
  simp only [hsingle] at hsplit
  refine .trans (.of_eq ?_) hsplit.symm
  simp [inner, map_flatMap, comp_def]

end Split

/-! ### Partners that are unique -/

lemma filter_eq_toList_find? {p : α → Bool} (hxs : xs.Nodup)
    (h : ∀ x ∈ xs, ∀ x' ∈ xs, p x → p x' → x = x') : xs.filter p = (xs.find? p).toList := by
  induction xs with
  | nil => rfl
  | cons x xs ih =>
    obtain ⟨hx, hxs⟩ := nodup_cons.1 hxs
    cases hp : p x with
    | true =>
      have hrest : xs.filter p = [] := by
        rw [filter_eq_nil_iff]
        intro y hy hpy
        exact hx (h x mem_cons_self y (mem_cons_of_mem x hy) hp hpy ▸ hy)
      rw [filter_cons_of_pos hp, hrest, find?_cons_of_pos hp]
      rfl
    | false =>
      have hp' : ¬ p x = true := by simp [hp]
      rw [filter_cons_of_neg hp', find?_cons_of_neg hp']
      exact ih hxs fun y hy z hz => h y (mem_cons_of_mem x hy) z (mem_cons_of_mem x hz)

/-- If no two elements on the left match the same element on the right, looking up the partner of
each element on the right gives all pairs. -/
lemma filterMap_find?_perm_inner (hxs : xs.Nodup)
    (h : ∀ y ∈ ys, ∀ x ∈ xs, ∀ x' ∈ xs, m x y → m x' y → x = x') :
    (ys.filterMap fun y => (xs.find? (m · y)).map (·, y)).Perm (inner m xs ys) := by
  refine .trans (.of_eq ?_) (inner_swap m xs ys)
  rw [inner, map_flatMap, filterMap_eq_flatMap_toList]
  apply flatMap_congr
  intro y hy
  rw [filter_eq_toList_find? hxs (h y hy)]
  cases xs.find? (m · y) <;> rfl

/-! ### Positions in a list -/

lemma map_getD_range (xs : List α) (d : α) : (range xs.length).map (xs.getD · d) = xs := by
  apply ext_getElem
  · simp
  · intro i hi _
    simp at hi ⊢
    simp [hi]

lemma any_range_getD (p : α → Bool) (xs : List α) (d : α) :
    ((range xs.length).any fun i => p (xs.getD i d)) = xs.any p := by
  nth_rewrite 3 [← map_getD_range xs d]
  rw [any_map]
  rfl

lemma map_getD_filter_range (p : α → Bool) (xs : List α) (d : α) :
    ((range xs.length).filter fun i => p (xs.getD i d)).map (xs.getD · d) = xs.filter p := by
  nth_rewrite 4 [← map_getD_range xs d]
  rw [filter_map]
  rfl

lemma of_length_filter_and {f g : α → Bool}
    (h : (xs.filter fun a => f a && g a).length = (xs.filter f).length) {a : α} (ha : a ∈ xs)
    (hf : f a = true) : g a = true := by
  have hsub : (xs.filter fun a => f a && g a).Sublist (xs.filter f) :=
    monotone_filter_right _ fun a ha => (and_eq_true_iff.1 ha).1
  have hmem : a ∈ xs.filter f := mem_filter.2 ⟨ha, hf⟩
  rw [← hsub.eq_of_length h, mem_filter, and_eq_true] at hmem
  exact hmem.2.2

/-- Choosing positions gives the elements with a property, up to order, only if exactly the
positions of these elements are chosen. -/
lemma perm_map_getD_filter_iff [DecidableEq α] (xs : List α) (d : α) (q : Nat → Bool)
    (p : α → Bool) : (((range xs.length).filter q).map (xs.getD · d)).Perm (xs.filter p) ↔
      ∀ i < xs.length, q i = p (xs.getD i d) := by
  rw [← map_getD_filter_range p xs d]
  constructor
  · intro h i hi
    have hmem : i ∈ range xs.length := mem_range.2 hi
    -- The chosen positions of the element at `i` are as many as all its positions, or none.
    set f : Nat → Bool := fun a => decide (xs.getD a d = xs.getD i d)
    have hfi : f i = true := decide_eq_true rfl
    have hcnt := h.countP_eq (fun x => decide (x = xs.getD i d))
    rw [countP_map, countP_map, countP_eq_length_filter, countP_eq_length_filter,
      filter_filter, filter_filter] at hcnt
    have hclass : (range xs.length).filter (fun a => f a && p (xs.getD a d)) =
        (range xs.length).filter fun a => f a && p (xs.getD i d) := by
      apply filter_congr
      intro a _
      cases ha : f a with
      | false => rfl
      | true => rw [of_decide_eq_true ha]
    have hcnt : ((range xs.length).filter fun a => f a && q a).length =
        ((range xs.length).filter fun a => f a && p (xs.getD i d)).length :=
      hcnt.trans (congrArg length hclass)
    cases hp : p (xs.getD i d) with
    | false =>
      simp only [hp, Bool.and_false, filter_false, length_nil, length_eq_zero_iff,
        filter_eq_nil_iff] at hcnt
      simpa [hfi] using hcnt i hmem
    | true =>
      simp only [hp, Bool.and_true] at hcnt
      exact of_length_filter_and hcnt hmem hfi
  · intro h
    rw [filter_congr fun i hi => h i (mem_range.1 hi)]

end Gqe.ListJoin
