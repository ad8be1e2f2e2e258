import Mathlib.Logic.Function.Basic

/-!
# Scattering a list into a table

Each element of a list updates the entry of a table it is sent to. An entry ends up with the updates
of the elements sent to it, in the order of the list. An accumulator can also take the elements in
parts and merge what has become of each part.
-/

namespace Gqe.Scatter

open List

variable {α ι A : Type*} [DecidableEq ι]

/-- Update the entry `target x` by `x`, if there is one, for each `x` of a list. -/
def scatter (target : α → Option ι) (update : A → α → A) (table : ι → A) (xs : List α) : ι → A :=
  xs.foldl
    (fun table x =>
      match target x with
      | none => table
      | some i => Function.update table i (update (table i) x))
    table

/-- The elements sent to an entry. -/
def sentTo (target : α → Option ι) (i : ι) (xs : List α) : List α :=
  xs.filter fun x => target x = some i

variable (target : α → Option ι)

lemma sentTo_cons (i : ι) (x : α) (xs : List α) :
    sentTo target i (x :: xs) =
      if target x = some i then x :: sentTo target i xs else sentTo target i xs := by
  simp [sentTo, filter_cons]

lemma scatter_apply (update : A → α → A) (table : ι → A) (xs : List α)
    (i : ι) : scatter target update table xs i = (sentTo target i xs).foldl update (table i) := by
  induction xs generalizing table with
  | nil => rfl
  | cons x xs ih =>
    rw [scatter, foldl_cons, ← scatter, ih, sentTo_cons]
    cases target x with
    | none => simp
    | some j =>
      by_cases hj : j = i
      · subst hj
        simp
      · simp [hj, Function.update_of_ne (Ne.symm hj)]

lemma foldl_eq_of_forall {f : α → A} {a b : A} {xs : List α} (hne : xs ≠ [])
    (h : ∀ x ∈ xs, f x = b) : xs.foldl (fun _ x => f x) a = b := by
  induction xs generalizing a with
  | nil => exact absurd rfl hne
  | cons x xs ih =>
    obtain ⟨hx, hxs⟩ := forall_mem_cons.1 h
    cases xs with
    | nil => exact hx
    | cons y ys => exact ih (a := f x) (by simp) hxs

/-- An entry that is overwritten only with one value, and at least once, has that value. -/
lemma scatter_eq_of_mem {target : α → Option ι} {f : α → A} {table : ι → A} {xs : List α} {x : α}
    {i : ι} {b : A} (hx : x ∈ xs) (hi : target x = some i)
    (h : ∀ y ∈ xs, target y = some i → f y = b) :
    scatter target (fun _ y => f y) table xs i = b := by
  rw [scatter_apply]
  refine foldl_eq_of_forall (ne_nil_of_mem (a := x) ?_) fun y hy => ?_
  · exact mem_filter.2 ⟨hx, by simpa using hi⟩
  · obtain ⟨hy, hyi⟩ := mem_filter.1 hy
    exact h y hy (by simpa using hyi)

lemma sentTo_perm (i : ι) {xs ys : List α} (h : xs.Perm ys) :
    (sentTo target i xs).Perm (sentTo target i ys) :=
  h.filter _

/-- The elements sent to any of several entries, by entry. -/
lemma flatMap_sentTo_perm {is : List ι} (his : is.Nodup) (xs : List α) :
    (is.flatMap fun i => sentTo target i xs).Perm
      (xs.filter fun x => ∃ i ∈ is, target x = some i) := by
  induction is with
  | nil => simp
  | cons i is ih =>
    obtain ⟨hi, his⟩ := nodup_cons.1 his
    refine ((List.Perm.refl _).append (ih his)).trans ?_
    refine List.Perm.trans ?_
      (filter_append_perm (fun x => target x = some i)
        (xs.filter fun x => ∃ j ∈ i :: is, target x = some j))
    rw [filter_filter, filter_filter]
    refine List.Perm.of_eq (congrArg₂ _ (filter_congr fun x _ => ?_)
      (filter_congr fun x _ => ?_))
    · simp only [mem_cons, exists_eq_or_imp, ← Bool.decide_and, decide_eq_decide]
      exact ⟨fun h => ⟨h, .inl h⟩, And.left⟩
    · simp only [mem_cons, exists_eq_or_imp, ← Bool.decide_and, ← decide_not, decide_eq_decide]
      refine ⟨fun h => ⟨?_, .inr h⟩, fun h => h.2.resolve_left h.1⟩
      rintro hxi
      obtain ⟨j, hj, hxj⟩ := h
      exact hi (Option.some.inj (hxi.symm.trans hxj) ▸ hj)

lemma foldl_map_some (update : A → α → A) (a : A) (xs : List α) :
    xs.foldl (fun a x => a.map (update · x)) (some a) = some (xs.foldl update a) := by
  induction xs generalizing a with
  | nil => rfl
  | cons x xs ih => exact ih (update a x)

/-! ### Accumulators -/

/-- How a value is accumulated from elements, and merged from values. -/
structure Accumulator (α A : Type*) where
  identity : A
  update : A → α → A
  merge : A → A → A

namespace Accumulator

variable (acc : Accumulator α A)

/-- The value accumulated from a list of elements. -/
def fold (xs : List α) : A := xs.foldl acc.update acc.identity

/-- Merging what has been accumulated from two lists is the same as going on with the
second list. -/
def IsLawful : Prop := ∀ xs ys, acc.merge (acc.fold xs) (acc.fold ys) = acc.fold (xs ++ ys)

/-- The accumulator that records the elements. -/
def record : Accumulator α (List α) where
  identity := []
  update xs x := xs ++ [x]
  merge := (· ++ ·)

@[simp] lemma fold_record (xs : List α) : record.fold xs = xs := by
  have hfoldl : ∀ ys, xs.foldl record.update ys = ys ++ xs := by
    induction xs with
    | nil => simp
    | cons x xs ih =>
      intro ys
      rw [foldl_cons, ih]
      simp [record]
  exact hfoldl []

lemma isLawful_record : (record (α := α)).IsLawful := by
  intro xs ys
  simp only [fold_record]
  rfl

variable {acc}

/-- Merging several parts is the same as adding the elements of all parts. -/
lemma IsLawful.foldl_merge (h : acc.IsLawful) {β : Type*} (part : β → List α) (bs : List β)
    (xs : List α) : bs.foldl (fun a b => acc.merge a (acc.fold (part b))) (acc.fold xs) =
      acc.fold (xs ++ bs.flatMap part) := by
  induction bs generalizing xs with
  | nil => simp
  | cons b bs ih => rw [foldl_cons, flatMap_cons, ← append_assoc, h, ih]

end Accumulator

end Gqe.Scatter
