import Gqe.Lib.KeyedSet
import Mathlib.Data.List.Perm.Subperm
import Mathlib.Data.Nat.Find
import Mathlib.Data.Nat.ModEq

/-!
# Hash tables with linear probing

Elements are kept in slots. The search for a key starts at the slot its hash gives and goes on from
slot to slot, around the end of the table, until it meets the key or an empty slot. As long as slots
are never emptied and some are left, the table holds a set of elements with different keys.
-/

namespace Gqe.LinearProbing

open List Function Option KeyedSet

variable {α κ : Type*}

/-- The slot of a probe. -/
def probe (size start i : Nat) : Nat := (start + i) % size

/-- Find the first element that is the one looked for, up to an empty slot. -/
def find (size : Nat) (same : α → Bool) (slots : Nat → Option α) : Nat → Nat → Option α
  | 0, _ => none
  | fuel + 1, slot =>
    match slots slot with
    | none => none
    | some y => if same y then some y else find size same slots fuel ((slot + 1) % size)

/-- Put an element into the first empty slot, unless an element that is the same comes before. The
result is the element in the table, `none` if there is no empty slot. -/
def insert (size : Nat) (same : α → Bool) (x : α) (slots : Nat → Option α) :
    Nat → Nat → Option (α × (Nat → Option α))
  | 0, _ => none
  | fuel + 1, slot =>
    match slots slot with
    | none => some (x, update slots slot (some x))
    | some y =>
      if same y then some (y, slots) else insert size same x slots fuel ((slot + 1) % size)

variable {size : Nat} {slots : Nat → Option α} {same : α → Bool}

/-! ### Probes -/

lemma probe_lt (hsize : 0 < size) (start i : Nat) : probe size start i < size :=
  Nat.mod_lt _ hsize

variable {slot : Nat}

lemma probe_zero (h : slot < size) : probe size slot 0 = slot :=
  Nat.mod_eq_of_lt h

lemma probe_succ (slot i : Nat) : probe size slot (i + 1) = probe size ((slot + 1) % size) i := by
  rw [probe, probe, Nat.mod_add_mod, Nat.add_assoc, Nat.add_comm 1 i]

lemma probe_mod (start i : Nat) : probe size (start % size) i = probe size start i :=
  Nat.mod_add_mod _ _ _

variable {i : Nat}

lemma probe_injective {start j : Nat} (hi : i < size) (hj : j < size)
    (h : probe size start i = probe size start j) : i = j := by
  have hmod : Nat.ModEq size i j := Nat.ModEq.add_left_cancel' start h
  exact Nat.ModEq.eq_of_lt_of_lt hmod hi hj

/-! ### Searching up to the probe that ends the search -/

/-- The search passes the first probes: there are other elements in their slots. -/
def Passes (size : Nat) (same : α → Bool) (slots : Nat → Option α) (start i : Nat) : Prop :=
  ∀ j < i, ∃ y, slots (probe size start j) = some y ∧ same y = false

/-- The search ends at a slot that is empty or has an element that is the same. -/
def Stops (same : α → Bool) (slots : Nat → Option α) (slot : Nat) : Prop :=
  ∀ y, slots slot = some y → same y = true

lemma Passes.tail {start : Nat} (h : Passes size same slots start (i + 1)) :
    Passes size same slots ((start + 1) % size) i := by
  intro j hj
  rw [← probe_succ]
  exact h (j + 1) (Nat.succ_lt_succ hj)

section

variable {fuel : Nat} (hslot : slot < size) (hi : i < fuel)
  (hpasses : Passes size same slots slot i) (hstops : Stops same slots (probe size slot i))
include hslot hi hpasses hstops

lemma find_of_passes :
    find size same slots fuel slot = slots (probe size slot i) := by
  have hsize : 0 < size := Nat.zero_lt_of_lt hslot
  induction i generalizing fuel slot with
  | zero =>
    obtain ⟨fuel, rfl⟩ := Nat.exists_eq_succ_of_ne_zero (Nat.ne_zero_of_lt hi)
    rw [probe_zero hslot] at hstops ⊢
    rw [find]
    cases hcont : slots slot with
    | none => rfl
    | some y => simp [hstops y hcont]
  | succ i ih =>
    obtain ⟨fuel, rfl⟩ := Nat.exists_eq_succ_of_ne_zero (Nat.ne_zero_of_lt hi)
    obtain ⟨y, hcont, hy⟩ := hpasses 0 (Nat.succ_pos i)
    rw [probe_zero hslot] at hcont
    rw [probe_succ] at hstops ⊢
    rw [find, hcont]
    simp only [hy]
    exact ih (Nat.mod_lt _ hsize) (Nat.lt_of_succ_lt_succ hi) hpasses.tail hstops

lemma insert_of_passes {x : α} :
    insert size same x slots fuel slot = match slots (probe size slot i) with
      | none => some (x, update slots (probe size slot i) (some x))
      | some y => some (y, slots) := by
  have hsize : 0 < size := Nat.zero_lt_of_lt hslot
  induction i generalizing fuel slot with
  | zero =>
    obtain ⟨fuel, rfl⟩ := Nat.exists_eq_succ_of_ne_zero (Nat.ne_zero_of_lt hi)
    rw [probe_zero hslot] at hstops ⊢
    rw [insert]
    cases hcont : slots slot with
    | none => rfl
    | some y => simp [hstops y hcont]
  | succ i ih =>
    obtain ⟨fuel, rfl⟩ := Nat.exists_eq_succ_of_ne_zero (Nat.ne_zero_of_lt hi)
    obtain ⟨y, hcont, hy⟩ := hpasses 0 (Nat.succ_pos i)
    rw [probe_zero hslot] at hcont
    rw [probe_succ] at hstops ⊢
    rw [insert, hcont]
    simp only [hy]
    exact ih (Nat.mod_lt _ hsize) (Nat.lt_of_succ_lt_succ hi) hpasses.tail hstops

end

/-- With an empty slot on the way, there is a first probe that ends the search. -/
lemma exists_stops {start k : Nat} (hk : k < size) (hemp : slots (probe size start k) = none)
    (same : α → Bool) :
    ∃ i < size, Passes size same slots start i ∧ Stops same slots (probe size start i) := by
  classical
  have hstops : ∃ i, Stops same slots (probe size start i) :=
    ⟨k, fun y hy => absurd (hemp.symm.trans hy) (by simp)⟩
  have hle : Nat.find hstops ≤ k :=
    Nat.find_le fun y hy => absurd (hemp.symm.trans hy) (by simp)
  refine ⟨Nat.find hstops, Nat.lt_of_le_of_lt hle hk, fun j hj => ?_, Nat.find_spec hstops⟩
  have hnot := Nat.find_min hstops hj
  simp only [Stops, not_forall] at hnot
  obtain ⟨y, hy, hsame⟩ := hnot
  exact ⟨y, hy, by simpa using hsame⟩

/-! ### The set a table holds -/

variable {key : α → κ} {home : κ → Nat} {set : List α}

/-- A table holds a set: each element is in one slot, and the slots from the one its hash gives up
to it are taken. -/
structure Holds (size : Nat) (key : α → κ) (home : κ → Nat) (slots : Nat → Option α)
    (set : List α) : Prop where
  mem_iff : ∀ x, x ∈ set ↔ ∃ slot < size, slots slot = some x
  unique : ∀ slot < size, ∀ slot' < size, ∀ x,
    slots slot = some x → slots slot' = some x → slot = slot'
  reaches : ∀ slot < size, ∀ x, slots slot = some x → ∃ i, slot = probe size (home (key x)) i ∧
      ∀ j < i, (slots (probe size (home (key x)) j)).isSome

namespace Holds

/-- A table with more slots than elements has an empty slot, wherever a search starts. -/
lemma exists_empty (h : Holds size key home slots set) (hlen : set.length < size)
    (start : Nat) : ∃ i < size, slots (probe size start i) = none := by
  by_contra hfull
  push Not at hfull
  have hsize : 0 < size := Nat.zero_lt_of_lt hlen
  have hcont : ∀ i < size, ∃ y, slots (probe size start i) = some y :=
    fun i hi => ne_none_iff_exists'.1 (hfull i hi)
  have hinj : ∀ i ∈ List.range size, ∀ j ∈ List.range size,
      slots (probe size start i) = slots (probe size start j) → i = j := by
    intro i hi j hj hij
    rw [mem_range] at hi hj
    obtain ⟨y, hy⟩ := hcont i hi
    exact probe_injective hi hj
      (h.unique _ (probe_lt hsize _ _) _ (probe_lt hsize _ _) y hy (hij ▸ hy))
  have hsub : (List.range size).map (fun i => slots (probe size start i)) ⊆ set.map some := by
    intro content hmem
    obtain ⟨i, hi, rfl⟩ := mem_map.1 hmem
    obtain ⟨y, hy⟩ := hcont i (mem_range.1 hi)
    rw [hy]
    exact mem_map_of_mem ((h.mem_iff y).2 ⟨_, probe_lt hsize _ _, hy⟩)
  have hle := (subperm_of_subset (List.Nodup.map_on hinj nodup_range) hsub).length_le
  rw [length_map, length_map, length_range] at hle
  exact Nat.not_lt.2 hle hlen

variable [DecidableEq κ]

section

variable (h : Holds size key home slots set)
include h

/-- A search that passes slots does not pass an element that is the same. -/
lemma not_same_of_passes {k : κ} (hpasses : Passes size (fun y => key y = k) slots (home k) i)
    (hemp : slots (probe size (home k) i) = none) : k ∉ set.map key := by
  rintro hk
  obtain ⟨x, hx, rfl⟩ := mem_map.1 hk
  obtain ⟨slot, hslot, hcont⟩ := (h.mem_iff x).1 hx
  obtain ⟨j, rfl, htaken⟩ := h.reaches slot hslot x hcont
  rcases Nat.lt_trichotomy j i with hj | rfl | hj
  · obtain ⟨y, hy, hsame⟩ := hpasses j hj
    obtain rfl : x = y := some.inj (hcont.symm.trans hy)
    simp at hsame
  · exact absurd (hemp.symm.trans hcont) (by simp)
  · exact absurd (htaken i hj) (by simp [hemp])

/-- Searching the table is looking up the key in the set. -/
lemma find_eq (hset : (set.map key).Nodup) (hlen : set.length < size) (k : κ) :
    find size (fun y => key y = k) slots size (home k % size) = KeyedSet.find key set k := by
  have hsize : 0 < size := Nat.zero_lt_of_lt hlen
  obtain ⟨e, he, hemp⟩ := h.exists_empty hlen (home k)
  obtain ⟨i, hi, hpasses, hstops⟩ := exists_stops he hemp fun y => decide (key y = k)
  rw [find_of_passes (Nat.mod_lt _ hsize) hi
    (by simpa only [Passes, probe_mod] using hpasses) (by rwa [probe_mod]), probe_mod]
  cases hcont : slots (probe size (home k) i) with
  | none =>
    have hk := h.not_same_of_passes hpasses hcont
    rw [← find_isSome_iff] at hk
    exact (not_isSome_iff_eq_none.1 hk).symm
  | some y =>
    refine ((find_eq_some_iff hset).2 ⟨?_, ?_⟩).symm
    · exact (h.mem_iff y).2 ⟨_, probe_lt hsize _ _, hcont⟩
    · simpa using hstops y hcont

lemma update (hsize : 0 < size) {x : α}
    (hpasses : Passes size (fun y => key y = key x) slots (home (key x)) i)
    (hemp : slots (probe size (home (key x)) i) = none) :
    Holds size key home (update slots (probe size (home (key x)) i) (some x))
      (set ++ [x]) := by
  have hnew : x ∉ set := fun hx =>
    h.not_same_of_passes hpasses hemp (mem_map_of_mem hx)
  have hother : ∀ slot y, slots slot = some y → slot ≠ probe size (home (key x)) i := by
    rintro slot y hy rfl
    exact absurd (hemp.symm.trans hy) (by simp)
  have hcont : ∀ slot < size, ∀ y,
      Function.update slots (probe size (home (key x)) i) (some x) slot = some y →
        (slot = probe size (home (key x)) i ∧ y = x) ∨ slots slot = some y := by
    intro slot _ y hy
    by_cases hslot : slot = probe size (home (key x)) i
    · subst hslot
      exact .inl ⟨rfl, by simpa using hy.symm⟩
    · exact .inr (by rwa [update_of_ne hslot] at hy)
  refine ⟨fun y => ?_, ?_, ?_⟩
  · rw [mem_append, mem_singleton, h.mem_iff]
    constructor
    · rintro (⟨slot, hslot, hy⟩ | rfl)
      · exact ⟨slot, hslot, by rwa [update_of_ne (hother slot y hy)]⟩
      · exact ⟨_, probe_lt hsize _ _, update_self _ _ _⟩
    · rintro ⟨slot, hslot, hy⟩
      rcases hcont slot hslot y hy with ⟨-, rfl⟩ | hy
      · exact .inr rfl
      · exact .inl ⟨slot, hslot, hy⟩
  · intro slot hslot slot' hslot' y hy hy'
    rcases hcont slot hslot y hy with ⟨hprobe, hyx⟩ | hold <;>
      rcases hcont slot' hslot' y hy' with ⟨hprobe', hyx'⟩ | hold'
    · exact hprobe.trans hprobe'.symm
    · exact absurd ((h.mem_iff x).2 ⟨slot', hslot', hyx ▸ hold'⟩) hnew
    · exact absurd ((h.mem_iff x).2 ⟨slot, hslot, hyx' ▸ hold⟩) hnew
    · exact h.unique slot hslot slot' hslot' y hold hold'
  · intro slot hslot y hy
    rcases hcont slot hslot y hy with ⟨rfl, rfl⟩ | hy
    · refine ⟨i, rfl, fun j hj => ?_⟩
      obtain ⟨z, hz, -⟩ := hpasses j hj
      rw [update_of_ne (hother _ z hz), hz]
      rfl
    · obtain ⟨j, rfl, htaken⟩ := h.reaches slot hslot y hy
      refine ⟨j, rfl, fun l hl => ?_⟩
      obtain ⟨z, hz⟩ := isSome_iff_exists.1 (htaken l hl)
      rw [update_of_ne (hother _ z hz), hz]
      rfl

/-- Inserting into the table is inserting into the set; the result is the element of the set with
the key. -/
lemma insert (hset : (set.map key).Nodup) (hlen : set.length < size) (x : α) :
    ∃ y slots', LinearProbing.insert size (fun y => key y = key x) x slots size
        (home (key x) % size) = some (y, slots') ∧
      KeyedSet.find key (KeyedSet.insert key set x) (key x) = some y ∧
      Holds size key home slots' (KeyedSet.insert key set x) := by
  have hsize : 0 < size := Nat.zero_lt_of_lt hlen
  have hinserted := nodup_insert hset x
  obtain ⟨e, he, hemp⟩ := h.exists_empty hlen (home (key x))
  obtain ⟨i, hi, hpasses, hstops⟩ := exists_stops he hemp fun y => decide (key y = key x)
  rw [insert_of_passes (Nat.mod_lt _ hsize) hi
    (by simpa only [Passes, probe_mod] using hpasses) (by rwa [probe_mod]), probe_mod]
  cases hcont : slots (probe size (home (key x)) i) with
  | none =>
    have hnew := h.not_same_of_passes hpasses hcont
    refine ⟨x, _, rfl, (find_eq_some_iff hinserted).2 ⟨?_, rfl⟩, ?_⟩
    · simp [KeyedSet.insert_of_not_mem hnew]
    · rw [KeyedSet.insert_of_not_mem hnew]
      exact h.update hsize hpasses hcont
  | some y =>
    have hy : y ∈ set := (h.mem_iff y).2 ⟨_, probe_lt hsize _ _, hcont⟩
    have hsame : key y = key x := by simpa using hstops y hcont
    have hold : KeyedSet.insert key set x = set :=
      insert_of_mem (hsame ▸ mem_map_of_mem hy)
    refine ⟨y, slots, rfl, ?_, ?_⟩
    · rw [hold]
      exact (find_eq_some_iff hset).2 ⟨hy, hsame⟩
    · rwa [hold]

end

end Holds

/-! ### Tests that agree on the table -/

section Congr

variable {same' : α → Bool} (hsize : 0 < size)
  (h : ∀ slot < size, ∀ y, slots slot = some y → same y = same' y)

include hsize h

/-- What is inserted depends only on which elements of the table are the same. -/
lemma insert_congr (x : α) (fuel : Nat) (hslot : slot < size) :
    insert size same x slots fuel slot = insert size same' x slots fuel slot := by
  induction fuel generalizing slot with
  | zero => rfl
  | succ fuel ih =>
    rw [insert, insert]
    cases hcont : slots slot with
    | none => rfl
    | some y => simp [h slot hslot y hcont, ih (Nat.mod_lt _ hsize)]

lemma find_congr (fuel : Nat) (hslot : slot < size) :
    find size same slots fuel slot = find size same' slots fuel slot := by
  induction fuel generalizing slot with
  | zero => rfl
  | succ fuel ih =>
    rw [find, find]
    cases hcont : slots slot with
    | none => rfl
    | some y => simp [h slot hslot y hcont, ih (Nat.mod_lt _ hsize)]

end Congr

end Gqe.LinearProbing
