import Mathlib.Data.Option.NAry

/-!
# Three-valued logic

Truth values are `Option Bool`, with `none` for unknown. Kleene's connectives decide as soon
as one operand does; the strict connectives are unknown as soon as one operand is.
-/

namespace ThreeValued

/-- Kleene conjunction: `false` wins over unknown. -/
def kand : Option Bool → Option Bool → Option Bool
  | some false, _         => some false
  | _,          some false => some false
  | some true,  some true => some true
  | _,          _         => none

/-- Kleene disjunction: `true` wins over unknown. -/
def kor : Option Bool → Option Bool → Option Bool
  | some true,  _          => some true
  | _,          some true  => some true
  | some false, some false => some false
  | _,          _          => none

/-- Negation, unknown on unknown. -/
def knot : Option Bool → Option Bool := Option.map (!·)

/-- Strict conjunction: unknown as soon as one operand is. -/
def strictAnd : Option Bool → Option Bool → Option Bool := Option.map₂ (· && ·)

/-- Strict disjunction: unknown as soon as one operand is. -/
def strictOr : Option Bool → Option Bool → Option Bool := Option.map₂ (· || ·)

variable (a b : Option Bool)

@[simp] lemma kand_eq_true : kand a b = some true ↔ a = some true ∧ b = some true := by
  rcases a with _ | _ | _ <;> rcases b with _ | _ | _ <;> simp [kand]

@[simp] lemma kand_eq_false : kand a b = some false ↔ a = some false ∨ b = some false := by
  rcases a with _ | _ | _ <;> rcases b with _ | _ | _ <;> simp [kand]

@[simp] lemma kor_eq_true : kor a b = some true ↔ a = some true ∨ b = some true := by
  rcases a with _ | _ | _ <;> rcases b with _ | _ | _ <;> simp [kor]

@[simp] lemma kor_eq_false : kor a b = some false ↔ a = some false ∧ b = some false := by
  rcases a with _ | _ | _ <;> rcases b with _ | _ | _ <;> simp [kor]

@[simp] lemma knot_eq_true : knot a = some true ↔ a = some false := by
  rcases a with _ | _ | _ <;> simp [knot]

@[simp] lemma knot_eq_false : knot a = some false ↔ a = some true := by
  rcases a with _ | _ | _ <;> simp [knot]

@[simp] lemma strictAnd_some (x y : Bool) : strictAnd (some x) (some y) = some (x && y) := rfl

@[simp] lemma strictOr_some (x y : Bool) : strictOr (some x) (some y) = some (x || y) := rfl

@[simp] lemma knot_some (x : Bool) : knot (some x) = some (!x) := rfl

@[simp] lemma strictAnd_eq_true : strictAnd a b = some true ↔ a = some true ∧ b = some true := by
  rcases a with _ | _ | _ <;> rcases b with _ | _ | _ <;> simp [strictAnd]

lemma or_of_strictOr_eq_true (h : strictOr a b = some true) : a = some true ∨ b = some true := by
  cases a <;> cases b <;> simp_all [strictOr]

@[simp] lemma strictAnd_eq_none : strictAnd a b = none ↔ a = none ∨ b = none := by
  simp [strictAnd]

@[simp] lemma strictOr_eq_none : strictOr a b = none ↔ a = none ∨ b = none := by
  simp [strictOr]

lemma strictAnd_eq_kand {a b : Option Bool} (ha : a ≠ none) (hb : b ≠ none) :
    strictAnd a b = kand a b := by
  rcases a with _ | _ | _ <;> rcases b with _ | _ | _ <;> simp_all [kand]

lemma strictOr_eq_kor {a b : Option Bool} (ha : a ≠ none) (hb : b ≠ none) :
    strictOr a b = kor a b := by
  rcases a with _ | _ | _ <;> rcases b with _ | _ | _ <;> simp_all [kor]

end ThreeValued
