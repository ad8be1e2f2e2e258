import Mathlib.Data.Countable.Basic
import Mathlib.Data.Fintype.EquivFin

/-!
# Equalities forced by equalities

A set of equations between variables forces exactly the equations of its equivalence closure: over
infinitely many values there is an assignment that satisfies these and no others.
-/

namespace EqualityClosure

variable {X V : Type*} {E : X → X → Prop}

/-- A map of variables that keeps the equations keeps those of the closure. -/
lemma eqvGen_map {Y : Type*} {E' : Y → Y → Prop} (f : X → Y) (hf : ∀ x y, E x y → E' (f x) (f y))
    {x y : X} (h : Relation.EqvGen E x y) : Relation.EqvGen E' (f x) (f y) := by
  induction h with
  | rel x y h => exact .rel _ _ (hf x y h)
  | refl x => exact .refl _
  | symm x y _ ih => exact ih.symm
  | trans x y z _ _ ih ih' => exact ih.trans _ _ _ ih'

/-- **Generic assignment.** -/
theorem exists_assignment [Countable X] [Infinite V] (E : X → X → Prop) :
    ∃ v : X → V, ∀ x y, v x = v y ↔ Relation.EqvGen E x y := by
  obtain ⟨f, hf⟩ := exists_injective_nat (Quot E)
  refine ⟨fun x => Infinite.natEmbedding V (f (Quot.mk E x)), fun x y => ?_⟩
  rw [(Infinite.natEmbedding V).injective.eq_iff, hf.eq_iff, Quot.eq]

end EqualityClosure
