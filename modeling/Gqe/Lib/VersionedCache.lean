import Mathlib.Data.List.DropRight

/-!
# Caches refreshed by version

A slot of a cache keeps the version it was made for. A reference under the same version finds the
contents as they are and adds to them; a reference under another version starts afresh. Whoever
counts on an empty slot finds what is left over from the references before.
-/

namespace Gqe.VersionedCache

open List

variable {K α : Type*}

/-- A use of the slot: the version it is asked for under, and what is added to the contents. -/
structure Reference (K α : Type*) where
  version : K
  items : List α

/-- What a reference under the version `v` finds before it adds anything. -/
def contents [DecidableEq K] (v : K) : Option (K × List α) → List α
  | none => []
  | some (k, xs) => if k = v then xs else []

/-- The slot after one reference. -/
def refresh [DecidableEq K] (slot : Option (K × List α)) (r : Reference K α) :
    Option (K × List α) :=
  some (r.version, contents r.version slot ++ r.items)

/-- The slot after a list of references. -/
def held [DecidableEq K] (refs : List (Reference K α)) : Option (K × List α) :=
  refs.foldl refresh none

/-- What the longest run of references under `v`, ending with the last one, has added. -/
def leftover [DecidableEq K] (v : K) (refs : List (Reference K α)) : List α :=
  (refs.rtakeWhile (·.version = v)).flatMap (·.items)

variable [DecidableEq K]

@[simp]
lemma contents_some (v k : K) (xs : List α) :
    contents v (some (k, xs)) = if k = v then xs else [] := rfl

lemma held_concat (refs : List (Reference K α)) (r : Reference K α) :
    held (refs ++ [r]) = refresh (held refs) r := by
  simp [held]

lemma leftover_concat (v : K) (refs : List (Reference K α)) (r : Reference K α) :
    leftover v (refs ++ [r]) = if r.version = v then leftover v refs ++ r.items else [] := by
  by_cases h : r.version = v
  · simp [leftover, h]
  · simp [leftover, h]

/-- The contents found under a version are what the last run of references under it has added. -/
theorem contents_held (v : K) (refs : List (Reference K α)) :
    contents v (held refs) = leftover v refs := by
  induction refs using reverseRecOn with
  | nil => rfl
  | append_singleton refs r ih =>
    rw [held_concat, leftover_concat]
    by_cases h : r.version = v
    · subst h
      simp [refresh, ih]
    · simp [refresh, h]

variable {current : List (Reference K α)}

section

variable (v : K) (earlier : List (Reference K α)) (h : ∀ r ∈ current, r.version = v)
include v earlier h

/-- References under the version itself add to what is left over from the earlier ones. -/
lemma leftover_append :
    leftover v (earlier ++ current) = leftover v earlier ++ current.flatMap (·.items) := by
  induction current using reverseRecOn with
  | nil => simp
  | append_singleton current r ih =>
    have hr : r.version = v := h r (by simp)
    rw [← append_assoc, leftover_concat, if_pos hr, ih fun s hs => h s (mem_append_left _ hs)]
    simp

/-- The slot holds exactly what the current references added if and only if the run of references
under their version before them added nothing. -/
theorem contents_held_eq_iff :
    contents v (held (earlier ++ current)) = current.flatMap (·.items) ↔
      ∀ r ∈ earlier.rtakeWhile (·.version = v), r.items = [] := by
  rw [contents_held, leftover_append v earlier h, append_left_eq_self, leftover, flatMap_eq_nil_iff]

end

end Gqe.VersionedCache
