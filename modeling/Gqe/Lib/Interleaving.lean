import Mathlib.Logic.Relation

/-!
# Interleavings of workers

Workers take steps on a shared state, one at a time. A run is an infinite sequence of such steps;
it is fair if every worker is scheduled again and again. A measure that every step keeps or
decreases bounds the steps that change the state, and if some worker can always decrease it, then
every fair run comes to its end.
-/

namespace Interleaving

variable {ι S : Type*} {step : ι → S → S → Prop}

/-- Some worker takes a step. -/
def Next (step : ι → S → S → Prop) (s s' : S) : Prop := ∃ i, step i s s'

/-- The states that finitely many steps lead to. -/
abbrev Reachable (step : ι → S → S → Prop) : S → S → Prop := Relation.ReflTransGen (Next step)

/-- What every step preserves holds in every reachable state. -/
lemma Reachable.invariant {I : S → Prop} {s s' : S} (h : Reachable step s s') (hs : I s)
    (hstep : ∀ i s s', I s → step i s s' → I s') : I s' := by
  induction h with
  | refl => exact hs
  | tail _ hnext ih =>
    obtain ⟨i, hnext⟩ := hnext
    exact hstep i _ _ ih hnext

/-- An infinite run. -/
structure Run (step : ι → S → S → Prop) where
  state : Nat → S
  worker : Nat → ι
  next : ∀ n, step (worker n) (state n) (state (n + 1))

namespace Run

/-- Every worker is scheduled again and again. -/
def IsFair (run : Run step) : Prop := ∀ i n, ∃ m, n ≤ m ∧ run.worker m = i

lemma reachable (run : Run step) (n : Nat) : Reachable step (run.state 0) (run.state n) := by
  induction n with
  | zero => exact .refl
  | succ n ih => exact ih.tail ⟨run.worker n, run.next n⟩

variable {I : S → Prop}

lemma invariant (run : Run step) (h0 : I (run.state 0))
    (hstep : ∀ i s s', I s → step i s s' → I s') (n : Nat) : I (run.state n) :=
  (run.reachable n).invariant h0 hstep

/-- Until the state changes, it stays the same. -/
lemma exists_change_or_eq (run : Run step) {μ : S → Nat} (hI : ∀ n, I (run.state n))
    (hmono : ∀ i s s', I s → step i s s' → s' = s ∨ μ s' < μ s) (n k : Nat) :
    run.state (n + k) = run.state n ∨ ∃ m, μ (run.state m) < μ (run.state n) := by
  induction k with
  | zero => exact .inl rfl
  | succ k ih =>
    rcases ih with heq | hlt
    · rcases hmono _ _ _ (hI (n + k)) (run.next (n + k)) with hstay | hlt
      · exact .inl (hstay.trans heq)
      · exact .inr ⟨n + k + 1, heq ▸ hlt⟩
    · exact .inr hlt

/-- **Termination of fair runs.** If every step keeps the state or decreases the measure, and as
long as the run is not done there is a worker whose steps decrease it, then the run is done at some
time. -/
theorem exists_done (run : Run step) (hfair : run.IsFair) (done : S → Prop) (μ : S → Nat)
    (hI : ∀ n, I (run.state n)) (hmono : ∀ i s s', I s → step i s s' → s' = s ∨ μ s' < μ s)
    (hprogress : ∀ s, I s → ¬ done s → ∃ i, ∀ s', step i s s' → μ s' < μ s) :
    ∃ n, done (run.state n) := by
  suffices ∀ k n, μ (run.state n) = k → ∃ n, done (run.state n) from this _ 0 rfl
  intro k
  induction k using Nat.strongRecOn with
  | ind k ih =>
    intro n hn
    by_cases hdone : done (run.state n)
    · exact ⟨n, hdone⟩
    · obtain ⟨i, hi⟩ := hprogress _ (hI n) hdone
      obtain ⟨m, hm, hworker⟩ := hfair i n
      obtain ⟨j, rfl⟩ := Nat.exists_eq_add_of_le hm
      -- when the worker is scheduled next, the state is still the same or the measure is smaller
      rcases run.exists_change_or_eq hI hmono n j with heq | ⟨l, hl⟩
      · have hnext := run.next (n + j)
        rw [hworker, heq] at hnext
        exact ih _ (hn ▸ hi _ hnext) (n + j + 1) rfl
      · exact ih _ (hn ▸ hl) l rfl

end Run

end Interleaving
