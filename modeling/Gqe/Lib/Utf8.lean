import Mathlib.Data.Char
import Mathlib.Data.List.Lex
import Mathlib.Order.Lattice
import Mathlib.Order.Monotone.Basic

/-!
# The order of encoded strings

Strings are encoded character by character. If the codes of two characters differ in the direction
of the characters before either of them ends, the encoded strings are ordered, byte by byte, as the
strings are, character by character. UTF-8 is such an encoding.
-/

namespace Gqe.Utf8

open List

variable {α β : Type*} [LinearOrder α] [LinearOrder β]

/-! ### Encodings that keep the order -/

/-- The lists first differ in an entry that is smaller in the first one. -/
def Below : List β → List β → Prop
  | a :: x, b :: y => a < b ∨ a = b ∧ Below x y
  | _, _ => False

lemma lt_append_of_below : ∀ {x y : List β}, Below x y → ∀ u v : List β, x ++ u < y ++ v
  | [], _, h => h.elim
  | _ :: _, [], h => h.elim
  | _ :: _, _ :: _, .inl h => fun _ _ => cons_lt_cons_iff.2 (.inl h)
  | _ :: _, _ :: _, .inr ⟨h, hxy⟩ => fun u v =>
    cons_lt_cons_iff.2 (.inr ⟨h, lt_append_of_below hxy u v⟩)

lemma append_lt_append_left {u v : List β} (h : u < v) : ∀ x : List β, x ++ u < x ++ v
  | [] => h
  | _ :: x => cons_lt_cons_iff.2 (.inr ⟨rfl, append_lt_append_left h x⟩)

theorem strictMono_flatMap {code : α → List β} (hcode : ∀ a b, a < b → Below (code a) (code b))
    (hne : ∀ a, code a ≠ []) : StrictMono (List.flatMap code) := by
  intro s t hst
  induction s generalizing t with
  | nil =>
    cases t with
    | nil => exact absurd hst (not_lt_nil _)
    | cons b t =>
      obtain ⟨x, code', hb⟩ := exists_cons_of_ne_nil (hne b)
      rw [flatMap_cons, hb]
      exact nil_lt_cons _ _
  | cons a s ih =>
    cases t with
    | nil => exact absurd hst (not_lt_nil _)
    | cons b t =>
      rcases cons_lt_cons_iff.1 hst with hab | ⟨rfl, hst'⟩
      · exact lt_append_of_below (hcode a b hab) _ _
      · exact append_lt_append_left (ih hst') _

/-! ### UTF-8 -/

def codePointBytes (n : Nat) : List Nat :=
  if n < 0x80 then [n]
  else if n < 0x800 then [0xC0 + n / 0x40, 0x80 + n % 0x40]
  else if n < 0x10000 then [0xE0 + n / 0x1000, 0x80 + n / 0x40 % 0x40, 0x80 + n % 0x40]
  else [0xF0 + n / 0x40000, 0x80 + n / 0x1000 % 0x40, 0x80 + n / 0x40 % 0x40, 0x80 + n % 0x40]

def bytes (s : List Char) : List Nat := s.flatMap fun c => codePointBytes c.toNat

lemma below_codePointBytes {m n : Nat} (h : m < n) :
    Below (codePointBytes m) (codePointBytes n) := by
  unfold codePointBytes
  split_ifs <;> simp only [Below] <;> omega

lemma codePointBytes_ne_nil (n : Nat) : codePointBytes n ≠ [] := by
  unfold codePointBytes
  split_ifs <;> exact cons_ne_nil _ _

/-- Strings are ordered by their bytes as by their characters. -/
theorem bytes_lt_bytes_iff {s t : List Char} : bytes s < bytes t ↔ s < t :=
  (strictMono_flatMap (fun (c d : Char) (h : c < d) => below_codePointBytes h)
    fun c => codePointBytes_ne_nil c.toNat).lt_iff_lt

/-! ### Boundaries of characters -/

/-- The first byte of a code is of another kind than the others, and no code starts another one. -/
structure Synchronizes {α β : Type*} (code : α → List β) (first : β → Prop) : Prop where
  eq_cons : ∀ a, ∃ b rest, code a = b :: rest ∧ first b ∧ ∀ c ∈ rest, ¬ first c
  inj : ∀ {a b : α} {u v : List β}, code a ++ u = code b ++ v → a = b

section Synchronizes

variable {α β : Type*} {code : α → List β} {first : β → Prop} (h : Synchronizes code first)
  {s : List α} {u v : List β}
include h

lemma Synchronizes.eq_cons_of_flatMap {a : α} (hs : s.flatMap code = code a ++ v) :
    ∃ t, s = a :: t ∧ v = t.flatMap code := by
  cases s with
  | nil =>
    obtain ⟨b, rest, hcode, -⟩ := h.eq_cons a
    simp [hcode] at hs
  | cons b s =>
    obtain rfl := h.inj hs
    exact ⟨s, rfl, (append_cancel_left hs).symm⟩

/-- An encoded string is only cut at a boundary before a first byte. -/
lemma Synchronizes.exists_of_flatMap_eq_append (hs : s.flatMap code = u ++ v)
    (hv : ∀ b ∈ v.head?, first b) :
    ∃ s₁ s₂, s = s₁ ++ s₂ ∧ u = s₁.flatMap code ∧ v = s₂.flatMap code := by
  induction s generalizing u with
  | nil =>
    obtain ⟨rfl, rfl⟩ := append_eq_nil_iff.1 hs.symm
    exact ⟨[], [], rfl, rfl, rfl⟩
  | cons a s ih =>
    obtain ⟨b, rest, hcode, -, hrest⟩ := h.eq_cons a
    rw [flatMap_cons] at hs
    rcases append_eq_append_iff.1 hs with ⟨x, rfl, hx⟩ | ⟨x, hx, rfl⟩
    · obtain ⟨s₁, s₂, rfl, rfl, rfl⟩ := ih hx
      exact ⟨a :: s₁, s₂, rfl, rfl, rfl⟩
    · cases u with
      | nil => exact ⟨[], a :: s, rfl, rfl, by simp [hx]⟩
      | cons c u =>
        cases x with
        | nil => exact ⟨[a], s, rfl, by simpa using hx.symm, rfl⟩
        | cons d x =>
          -- within a code, the next byte is not a first one
          rw [hcode, cons_append, List.cons.injEq] at hx
          exact absurd (hv d rfl) (hrest d (by simp [hx.2]))

end Synchronizes

def code (c : Char) : List UInt8 := (codePointBytes c.toNat).map UInt8.ofNat

def encode (s : List Char) : List UInt8 := s.flatMap code

/-- A byte that does not continue a character. -/
def IsFirst (b : UInt8) : Prop := ¬ (0x80 ≤ b.toNat ∧ b.toNat < 0xC0)

lemma toNat_lt (c : Char) : c.toNat < 0x110000 := by
  rcases c.valid with h | h
  · exact h.trans (by decide)
  · exact h.2

lemma lt_of_mem_codePointBytes {n b : Nat} (hn : n < 0x110000) (hb : b ∈ codePointBytes n) :
    b < 256 := by
  unfold codePointBytes at hb
  split_ifs at hb <;> simp only [mem_cons, not_mem_nil, or_false] at hb <;> omega

lemma map_toNat_code (c : Char) : (code c).map UInt8.toNat = codePointBytes c.toNat := by
  rw [code, map_map]
  refine (map_congr_left fun b hb => ?_).trans (map_id _)
  exact Nat.mod_eq_of_lt (lt_of_mem_codePointBytes (toNat_lt c) hb)

lemma codePointBytes_eq_cons (n : Nat) : ∃ b rest, codePointBytes n = b :: rest ∧
    ¬ (0x80 ≤ b ∧ b < 0xC0) ∧ ∀ c ∈ rest, 0x80 ≤ c ∧ c < 0xC0 := by
  unfold codePointBytes
  split_ifs <;> refine ⟨_, _, rfl, ?_⟩ <;> simp <;> omega

lemma synchronizes_code : Synchronizes code IsFirst where
  eq_cons c := by
    obtain ⟨b, rest, hcons, hb, hrest⟩ := codePointBytes_eq_cons c.toNat
    obtain ⟨d, tail, hcode, rfl, rfl⟩ := map_eq_cons_iff.1 ((map_toNat_code c).trans hcons)
    exact ⟨d, tail, hcode, hb, fun x hx hfst => hfst (hrest _ (mem_map_of_mem hx))⟩
  inj {c d u v} huv := by
    have hnat := congrArg (List.map UInt8.toNat) huv
    rw [map_append, map_append, map_toNat_code, map_toNat_code] at hnat
    rcases lt_trichotomy c.toNat d.toNat with hlt | heq | hlt
    · exact absurd hnat (lt_append_of_below (below_codePointBytes hlt) _ _).ne
    · exact Char.toNat_inj.1 heq
    · exact absurd hnat (lt_append_of_below (below_codePointBytes hlt) _ _).ne'

lemma encode_injective : Function.Injective encode := by
  intro s
  induction s with
  | nil =>
    intro t ht
    cases t with
    | nil => rfl
    | cons c t =>
      obtain ⟨b, rest, hcode, -⟩ := synchronizes_code.eq_cons c
      simp [encode, hcode] at ht
  | cons c s ih =>
    intro t ht
    obtain ⟨u, rfl, hu⟩ := synchronizes_code.eq_cons_of_flatMap ht.symm
    rw [ih hu]

lemma exists_code_eq_dropLast (c : Char) :
    ∃ d ≠ c, (code d).length = (code c).length ∧ (code d).dropLast = (code c).dropLast := by
  have hvalid : ∀ n, n.isValidChar → (n + 1 - 2 * (n % 2)).isValidChar := by
    omega
  obtain ⟨d, hd⟩ : ∃ d : Char, d.toNat = c.toNat + 1 - 2 * (c.toNat % 2) :=
    ⟨Char.ofNatAux _ (hvalid _ c.valid), rfl⟩
  refine ⟨d, fun heq => ?_, ?_⟩
  · rw [heq] at hd
    omega
  · rw [code, code, hd, length_map, length_map, ← map_dropLast, ← map_dropLast]
    have hbytes : (codePointBytes (c.toNat + 1 - 2 * (c.toNat % 2))).length =
          (codePointBytes c.toNat).length ∧
        (codePointBytes (c.toNat + 1 - 2 * (c.toNat % 2))).dropLast =
          (codePointBytes c.toNat).dropLast := by
      unfold codePointBytes
      split_ifs <;> simp <;> omega
    exact ⟨hbytes.1, by rw [hbytes.2]⟩

/-! ### Prefixes -/

lemma lt_of_take_lt_take {n : Nat} {s t : List α} (h : s.take n < t.take n) : s < t := by
  induction n generalizing s t with
  | zero => exact absurd h (not_lt_nil _)
  | succ n ih =>
    match s, t with
    | _, [] => exact absurd h (not_lt_nil _)
    | [], b :: t => exact nil_lt_cons b t
    | a :: s, b :: t =>
      rw [take_succ_cons, take_succ_cons, cons_lt_cons_iff] at h
      rw [cons_lt_cons_iff]
      exact h.imp id fun ⟨hab, hst⟩ => ⟨hab, ih hst⟩

lemma take_le_take {s t : List α} (h : s ≤ t) (n : Nat) : s.take n ≤ t.take n :=
  not_lt.1 fun hlt => not_lt.2 h (lt_of_take_lt_take hlt)

end Gqe.Utf8
