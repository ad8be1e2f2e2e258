import Mathlib.Data.List.Pairwise

/-!
# Lexicographic comparison by keys

Rows of values are compared key by key, each key with a comparison of its own. Two families of
comparisons may disagree on some pairs of values; a list sorted by one family is sorted by the other
one as long as no two of its rows first differ in such a pair.
-/

namespace Gqe.LexOrder

variable {κ α β : Type*}

/-- Compare two rows by the first key that tells them apart. -/
def lex (cmp : κ → α → α → Ordering) : List κ → List α → List α → Ordering
  | k :: ks, a :: as, b :: bs => (cmp k a b).then (lex cmp ks as bs)
  | _, _, _ => .eq

/-- Two rows differ, and `P` holds of the values in which they first do. -/
def FirstDiffer (P : κ → α → α → Prop) : List κ → List α → List α → Prop
  | k :: ks, a :: as, b :: bs => a ≠ b ∧ P k a b ∨ a = b ∧ FirstDiffer P ks as bs
  | _, _, _ => False

instance FirstDiffer.decidable [DecidableEq α] (P : κ → α → α → Prop)
    [∀ k a b, Decidable (P k a b)] : ∀ ks as bs, Decidable (FirstDiffer P ks as bs)
  | [], _, _ => isFalse (by simp [FirstDiffer])
  | _ :: _, [], _ => isFalse (by simp [FirstDiffer])
  | _ :: _, _ :: _, [] => isFalse (by simp [FirstDiffer])
  | k :: ks, a :: as, b :: bs =>
    haveI := FirstDiffer.decidable P ks as bs
    inferInstanceAs (Decidable (a ≠ b ∧ P k a b ∨ a = b ∧ FirstDiffer P ks as bs))

variable {P : κ → α → α → Prop}

lemma FirstDiffer.symm (hP : ∀ k a b, P k a b → P k b a) :
    ∀ {ks : List κ} {as bs : List α}, FirstDiffer P ks as bs → FirstDiffer P ks bs as
  | [], _, _, h => h.elim
  | _ :: _, [], _, h => h.elim
  | _ :: _, _ :: _, [], h => h.elim
  | k :: _, a :: _, b :: _, h => by
    rcases h with ⟨hne, hP'⟩ | ⟨rfl, h⟩
    · exact .inl ⟨hne.symm, hP k a b hP'⟩
    · exact .inr ⟨rfl, h.symm hP⟩

lemma FirstDiffer.irrefl : ∀ (ks : List κ) (as : List α), ¬FirstDiffer P ks as as
  | [], _ => id
  | _ :: _, [] => id
  | _ :: ks, _ :: as => by
    rintro (⟨hne, -⟩ | ⟨-, h⟩)
    · exact hne rfl
    · exact irrefl ks as h

/-- Two families of comparisons by which the same values are equal, and that are opposite to each
other on the pairs with `P`. -/
structure OppositeOn (P : κ → α → α → Prop) (cmp cmp' : κ → α → α → Ordering) : Prop where
  eq_iff : ∀ k a b, cmp k a b = .eq ↔ a = b
  symm : ∀ k a b, P k a b → P k b a
  opposite : ∀ k a b, P k a b → cmp' k a b = (cmp k a b).swap
  same : ∀ k a b, ¬P k a b → cmp' k a b = cmp k a b

namespace OppositeOn

variable {P : κ → α → α → Prop} {cmp cmp' : κ → α → α → Ordering}

lemma self (h : OppositeOn P cmp cmp') (k : κ) (a : α) : cmp k a a = .eq ∧ cmp' k a a = .eq := by
  have heq := (h.eq_iff k a a).2 rfl
  refine ⟨heq, ?_⟩
  by_cases hP : P k a a
  · rw [h.opposite k a a hP, heq]
    rfl
  · rw [h.same k a a hP, heq]

lemma lex_of_firstDiffer (h : OppositeOn P cmp cmp') :
    ∀ (ks : List κ) (as bs : List α), FirstDiffer P ks as bs →
      lex cmp ks as bs ≠ .eq ∧ lex cmp' ks as bs = (lex cmp ks as bs).swap
  | [], _, _, hdiff => hdiff.elim
  | _ :: _, [], _, hdiff => hdiff.elim
  | _ :: _, _ :: _, [], hdiff => hdiff.elim
  | k :: ks, a :: as, b :: bs, hdiff => by
    rcases hdiff with ⟨hne, hP⟩ | ⟨rfl, hdiff⟩
    · have hcmp : cmp k a b ≠ .eq := fun heq => hne ((h.eq_iff k a b).1 heq)
      simp only [lex, h.opposite k a b hP]
      cases hc : cmp k a b <;> simp_all
    · obtain ⟨hcmp, hcmp'⟩ := h.self k a
      simpa [lex, hcmp, hcmp'] using h.lex_of_firstDiffer ks as bs hdiff

lemma lex_of_not_firstDiffer (h : OppositeOn P cmp cmp') :
    ∀ (ks : List κ) (as bs : List α), ¬FirstDiffer P ks as bs → lex cmp' ks as bs = lex cmp ks as bs
  | [], _, _, _ => rfl
  | _ :: _, [], _, _ => rfl
  | _ :: _, _ :: _, [], _ => rfl
  | k :: ks, a :: as, b :: bs, hdiff => by
    simp only [FirstDiffer, not_or, not_and] at hdiff
    by_cases hne : a = b
    · subst hne
      obtain ⟨hcmp, hcmp'⟩ := h.self k a
      simp only [lex, hcmp, hcmp', Ordering.eq_then]
      exact h.lex_of_not_firstDiffer ks as bs (hdiff.2 rfl)
    · have hcmp : cmp k a b ≠ .eq := fun heq => hne ((h.eq_iff k a b).1 heq)
      simp only [lex, h.same k a b (hdiff.1 hne)]
      cases hc : cmp k a b <;> simp_all

end OppositeOn

lemma or_of_pairwise {R : β → β → Prop} {l : List β} {a b : β} (h : l.Pairwise R) (ha : a ∈ l)
    (hb : b ∈ l) (hne : a ≠ b) : R a b ∨ R b a := by
  have : Std.Symm fun a b => R a b ∨ R b a := ⟨fun _ _ => Or.symm⟩
  have hor : l.Pairwise fun a b => R a b ∨ R b a := h.imp Or.inl
  exact hor.forall ha hb hne

/-- A list that is sorted by one family of comparisons is sorted by the other one exactly if no two
of its rows first differ in values on which the two are opposite. -/
theorem pairwise_lex_iff {cmp cmp' : κ → α → α → Ordering}
    (h : OppositeOn P cmp cmp') {ks : List κ} (key : β → List α) {rows : List β}
    (hsort : rows.Pairwise fun p q => lex cmp ks (key p) (key q) ≠ .gt) :
    rows.Pairwise (fun p q => lex cmp' ks (key p) (key q) ≠ .gt) ↔
      ∀ p ∈ rows, ∀ q ∈ rows, ¬FirstDiffer P ks (key p) (key q) := by
  constructor
  · intro hsort' p hp q hq hdiff
    have hne : p ≠ q := by
      rintro rfl
      exact FirstDiffer.irrefl ks _ hdiff
    -- Whichever of the two comes first is in the wrong place for one of the comparisons.
    have hwrong : ∀ a b, FirstDiffer P ks (key a) (key b) →
        ¬(lex cmp ks (key a) (key b) ≠ .gt ∧ lex cmp' ks (key a) (key b) ≠ .gt) := by
      rintro a b hab ⟨hgt, hgt'⟩
      obtain ⟨hne, hswap⟩ := h.lex_of_firstDiffer ks _ _ hab
      cases hc : lex cmp ks (key a) (key b) <;> simp_all
    rcases or_of_pairwise (hsort.and hsort') hp hq hne with hle | hle
    · exact hwrong p q hdiff hle
    · exact hwrong q p (hdiff.symm h.symm) hle
  · intro hdiff
    refine hsort.imp_of_mem fun {p q} hp hq hle => ?_
    rw [h.lex_of_not_firstDiffer ks _ _ (hdiff p hp q hq)]
    exact hle

end Gqe.LexOrder
