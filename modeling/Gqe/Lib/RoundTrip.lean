import Gqe.Lib.Fallible

/-!
# Round trips

A value that is written to a message and read from it again, where both may fail: what survives
on its own survives in an optional field and in a repeated field. Writing a tree fails exactly if
writing one of its parts does.
-/

namespace Gqe.RoundTrip

open Fallible

variable {α β ε : Type}

/-- What `write` makes of the value is what `read` makes the value of. -/
def Carries (write : α → Except ε β) (read : β → Except ε α) (a : α) : Prop :=
  ∃ m, write a = .ok m ∧ read m = .ok a

variable {write : α → Except ε β} {read : β → Except ε α}

lemma carries_iff {a : α} : Carries write read a ↔ (write a >>= read) = .ok a := by
  constructor
  · rintro ⟨m, hwrite, hread⟩
    rw [hwrite]
    exact hread
  · exact bind_eq_ok

lemma Carries.optional {a? : Option α} (h : ∀ a ∈ a?, Carries write read a) :
    Carries (·.mapM write) (·.mapM read) a? := by
  cases a? with
  | none => exact ⟨none, rfl, rfl⟩
  | some a =>
    obtain ⟨m, hwrite, hread⟩ := h a rfl
    refine ⟨some m, ?_, ?_⟩
    · simp [hwrite]
    · simp [hread]

lemma Carries.repeated {as : List α} (h : ∀ a ∈ as, Carries write read a) :
    Carries (·.mapM write) (·.mapM read) as := by
  induction as with
  | nil => exact ⟨[], rfl, rfl⟩
  | cons a as ih =>
    obtain ⟨ha, has⟩ := List.forall_mem_cons.1 h
    obtain ⟨m, hwrite, hread⟩ := ha
    obtain ⟨ms, hwrites, hreads⟩ := ih has
    refine ⟨m :: ms, ?_, ?_⟩
    · simp [hwrite, hwrites]
    · simp [hread, hreads]

/-! ### Trees with parts that cannot be written -/

/-- A computation that fails in a known way, if `fails`, and otherwise gives what a property holds
of. -/
def Outcome (failure : ε) (fails : Bool) (x : Except ε α) (P : α → Prop) : Prop :=
  if fails then x = .error failure else ∃ m, x = .ok m ∧ P m

/-- A value that cannot be written, if `fails`, and otherwise survives. -/
abbrev Sends (failure : ε) (fails : Bool) (write : α → Except ε β) (read : β → Except ε α) (a : α) :
    Prop :=
  Outcome failure fails (write a) (read · = .ok a)

section Outcome

variable {failure : ε} {fails after : Bool} {x : Except ε α} {f : α → Except ε β} {P : α → Prop}
  {Q : β → Prop}

/-- A computation fails in its first part or, if that succeeds, in what follows. -/
lemma Outcome.bind (h : Outcome failure fails x P) (hf : ∀ m, P m → Outcome failure after (f m) Q) :
    Outcome failure (fails || after) (x >>= f) Q := by
  cases fails with
  | true =>
    obtain rfl : x = .error failure := h
    rfl
  | false =>
    obtain ⟨m, rfl, hm⟩ := h
    exact hf m hm

lemma Outcome.bind_last (h : Outcome failure fails x P)
    (hf : ∀ m, P m → Outcome failure false (f m) Q) : Outcome failure fails (x >>= f) Q := by
  rw [← Bool.or_false fails]
  exact h.bind hf

end Outcome

lemma Sends.bind_read {failure : ε} {fails : Bool} {a : α} (h : Sends failure fails write read a) :
    (write a >>= read) = if fails then .error failure else .ok a := by
  cases fails with
  | true =>
    rw [show write a = .error failure from h]
    rfl
  | false => exact carries_iff.1 h

end Gqe.RoundTrip
