import Mathlib.Data.List.Forall2
import Mathlib.Data.List.Induction

/-!
# Computations that may fail

How a successful computation is taken apart: a bind into its two halves, and a loop over a list
into its turns.
-/

namespace Gqe.Fallible

open List Except

universe u

variable {ε : Type*} {α β : Type u} {σ : Type}

lemma bind_eq_ok {x : Except ε α} {f : α → Except ε β} {y : β}
    (h : x >>= f = .ok y) : ∃ a, x = .ok a ∧ f a = .ok y := by
  cases x with
  | error e => cases h
  | ok a => exact ⟨a, rfl, h⟩

@[simp] lemma ok_bind (a : α) (f : α → Except ε β) : (ok a >>= f) = f a := rfl

@[simp] lemma error_bind (e : ε) (f : α → Except ε β) : (error e >>= f) = .error e := rfl

variable {f : σ → α → Except ε σ}

lemma foldlM_concat_eq_ok {l : List α} {a : α} {s s' : σ} :
    (l ++ [a]).foldlM f s = .ok s' ↔ ∃ s₁, l.foldlM f s = .ok s₁ ∧ f s₁ a = .ok s' := by
  rw [foldlM_append]
  constructor
  · intro h
    obtain ⟨s₁, hl, h⟩ := bind_eq_ok h
    exact ⟨s₁, hl, by simpa using h⟩
  · rintro ⟨s₁, hl, ha⟩
    simp [hl, ha, pure, Except.pure]

/-- What holds at the start and is kept by every turn holds of the whole loop. -/
theorem foldlM_induction {P : List α → σ → Prop} {s s' : σ} {l : List α} (h : l.foldlM f s = .ok s')
    (hstart : P [] s) (hstep : ∀ l a s₁ s₂, P l s₁ → f s₁ a = .ok s₂ → P (l ++ [a]) s₂) :
    P l s' := by
  induction l using reverseRecOn generalizing s' with
  | nil =>
    obtain rfl : s = s' := ok.inj h
    exact hstart
  | append_singleton l a ih =>
    obtain ⟨s₁, hl, ha⟩ := foldlM_concat_eq_ok.1 h
    exact hstep l a s₁ s' (ih hl) ha

section MapM

variable {α β : Type*} {f : α → Except ε β} {xs : List α} {ys : List β}

/-- A map of computations that succeed. -/
lemma mapM_eq_ok {g : α → β} (h : ∀ x ∈ xs, f x = .ok (g x)) : xs.mapM f = .ok (xs.map g) := by
  induction xs with
  | nil => rfl
  | cons x xs ih =>
    obtain ⟨hx, hxs⟩ := forall_mem_cons.1 h
    rw [mapM_cons, hx, ih hxs]
    rfl

lemma mapM_congr {g : α → Except ε β} (h : ∀ x ∈ xs, f x = g x) : xs.mapM f = xs.mapM g := by
  induction xs with
  | nil => rfl
  | cons x xs ih =>
    obtain ⟨hx, hxs⟩ := forall_mem_cons.1 h
    rw [mapM_cons, mapM_cons, hx, ih hxs]

lemma mapM_eq_ok_iff : xs.mapM f = .ok ys ↔ List.Forall₂ (fun x y => f x = .ok y) xs ys := by
  induction xs generalizing ys with
  | nil =>
    rw [forall₂_nil_left_iff, eq_comm]
    exact ok.injEq .. |>.to_iff
  | cons x xs ih =>
    rw [mapM_cons, forall₂_cons_left_iff]
    constructor
    · intro h
      obtain ⟨y, hy, h⟩ := bind_eq_ok h
      obtain ⟨ys', hys, h⟩ := bind_eq_ok h
      exact ⟨y, ys', hy, ih.1 hys, (ok.inj h).symm⟩
    · rintro ⟨y, ys', hy, hys, rfl⟩
      rw [hy, ih.2 hys]
      rfl

lemma mapM_forall₂ {γ : Type*} {R : γ → α → Prop} {P : γ → β → Prop} {ws : List γ}
    (hR : List.Forall₂ R ws xs) (h : ∀ w x, R w x → ∃ y, f x = .ok y ∧ P w y) :
    ∃ ys, xs.mapM f = .ok ys ∧ List.Forall₂ P ws ys := by
  induction hR with
  | nil => exact ⟨[], rfl, .nil⟩
  | cons hwx _ ih =>
    obtain ⟨y, hy, hP⟩ := h _ _ hwx
    obtain ⟨ys, hys, hPs⟩ := ih
    exact ⟨y :: ys, mapM_eq_ok_iff.2 (.cons hy (mapM_eq_ok_iff.1 hys)), .cons hP hPs⟩

lemma exists_mapM_eq_ok {P : α → β → Prop} (h : ∀ x ∈ xs, ∃ y, f x = .ok y ∧ P x y) :
    ∃ ys, xs.mapM f = .ok ys ∧ List.Forall₂ P xs ys :=
  mapM_forall₂ (forall₂_same.2 h) fun _ _ h => h

lemma forall_of_mapM_eq_ok (h : xs.mapM f = .ok ys) : ∀ x ∈ xs, ∃ y, f x = .ok y :=
  ((forall₂_and_left xs ys).1 ((mapM_eq_ok_iff.1 h).imp fun _ y hy => ⟨⟨y, hy⟩, hy⟩)).1

end MapM

end Gqe.Fallible
