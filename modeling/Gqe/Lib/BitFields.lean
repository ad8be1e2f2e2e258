import Mathlib.Algebra.GroupWithZero.Nat
import Mathlib.Data.List.Basic

/-!
# Fields of a word

Words are packed into the bits of one word by shifting each past the widths of those before it and
combining them by exclusive or. The bits below the total width determine every field, as long as a
field is determined by the bits below its own width; a field that goes on above its width changes
the bits of the fields above it, and can be undone from the lowest field up.
-/

namespace Gqe.BitFields

open List

variable {w : Nat}

/-! ### Bits below and above a position -/

/-- Words that have the same bits below a position. -/
def AgreeBelow (n : Nat) (x y : BitVec w) : Prop := ∀ b < n, x.getLsbD b = y.getLsbD b

/-- A word without bits from a position on. -/
def IsBelow (n : Nat) (x : BitVec w) : Prop := ∀ b, n ≤ b → x.getLsbD b = false

/-- A word whose bits from a position on are all the same. -/
def IsFilled (n : Nat) (sign : Bool) (x : BitVec w) : Prop :=
  ∀ b, n ≤ b → b < w → x.getLsbD b = sign

variable {n : Nat} {x : BitVec w}

lemma isBelow_iff : IsBelow n x ↔ x.toNat < 2 ^ n := by
  constructor
  · intro h
    exact Nat.lt_pow_two_of_testBit _ fun b hb => h b hb
  · intro h b hb
    exact Nat.testBit_lt_two_pow (Nat.lt_of_lt_of_le h (Nat.pow_le_pow_right Nat.two_pos hb))

lemma agreeBelow_iff {x y : BitVec w} : AgreeBelow n x y ↔ x.toNat % 2 ^ n = y.toNat % 2 ^ n := by
  constructor
  · intro h
    refine Nat.eq_of_testBit_eq fun b => ?_
    rw [Nat.testBit_mod_two_pow, Nat.testBit_mod_two_pow]
    by_cases hb : b < n
    · exact congrArg _ (h b hb)
    · simp [hb]
  · intro h b hb
    have hbit : (x.toNat % 2 ^ n).testBit b = (y.toNat % 2 ^ n).testBit b := by rw [h]
    simpa [hb, BitVec.testBit_toNat] using hbit

/-- Words without bits from a position on are determined by the bits below it. -/
lemma AgreeBelow.eq {x y : BitVec w} (h : AgreeBelow n x y) (hx : IsBelow n x)
    (hy : IsBelow n y) : x = y := by
  refine BitVec.eq_of_getLsbD_eq fun b _ => ?_
  by_cases hb : b < n
  · exact h b hb
  · rw [hx b (Nat.le_of_not_lt hb), hy b (Nat.le_of_not_lt hb)]

lemma IsBelow.isFilled (h : IsBelow n x) : IsFilled n false x :=
  fun b hb _ => h b hb

lemma IsFilled.isBelow (h : IsFilled n false x) : IsBelow n x := by
  intro b hb
  by_cases hbw : b < w
  · exact h b hb hbw
  · exact BitVec.getLsbD_of_ge x b (Nat.le_of_not_lt hbw)

lemma IsBelow.mono {m n : Nat} (h : m ≤ n) (hx : IsBelow m x) : IsBelow n x :=
  fun b hb => hx b (Nat.le_trans h hb)

lemma sub_clz_le_iff (hw : 0 < w) : w - x.clz.toNat ≤ n ↔ IsBelow n x := by
  constructor
  · intro h
    exact IsBelow.mono h (isBelow_iff.2 BitVec.toNat_lt_two_pow_sub_clz)
  · intro h
    by_contra hn
    have hx : x ≠ 0#w := by
      rintro rfl
      have hclz : (0#w).clz = BitVec.ofNat w w := BitVec.clz_eq_iff_eq_zero.2 rfl
      simp [hclz] at hn
    have hle := BitVec.getLsbD_true_clz_of_ne_zero hw hx
    rw [h _ (by omega)] at hle
    exact Bool.noConfusion hle

/-! ### Packing -/

/-- The fields, each shifted past the widths of those before it, combined by exclusive or. -/
def pack : List (Nat × BitVec w) → BitVec w
  | [] => 0
  | field :: fields => field.2 ^^^ (pack fields <<< field.1)

def width (fields : List (Nat × BitVec w)) : Nat := (fields.map Prod.fst).sum

@[simp] lemma width_cons (field : Nat × BitVec w) (fields : List (Nat × BitVec w)) :
    width (field :: fields) = field.1 + width fields := rfl

@[simp] lemma width_append (fields fields' : List (Nat × BitVec w)) :
    width (fields ++ fields') = width fields + width fields' := by
  simp [width]

variable {fields : List (Nat × BitVec w)} {field : Nat × BitVec w}

lemma getLsbD_pack_cons_of_lt {b : Nat} (h : b < field.1) :
    (pack (field :: fields)).getLsbD b = field.2.getLsbD b := by
  simp [pack, h]

lemma getLsbD_pack_cons_add {b : Nat} (h : field.1 + b < w) :
    (pack (field :: fields)).getLsbD (field.1 + b) =
      (field.2.getLsbD (field.1 + b) ^^ (pack fields).getLsbD b) := by
  rw [pack, BitVec.getLsbD_xor, BitVec.getLsbD_shiftLeft]
  simp [h]

variable {fields fields' : List (Nat × BitVec w)}

/-- The bits below the total width determine the fields. -/
lemma eq_of_agreeBelow_pack
    (hfields : List.Forall₂ (fun f f' => f.1 = f'.1 ∧ (AgreeBelow f.1 f.2 f'.2 → f.2 = f'.2))
      fields fields')
    (hwidth : width fields ≤ w) (h : AgreeBelow (width fields) (pack fields) (pack fields')) :
    fields = fields' := by
  induction hfields with
  | nil => rfl
  | @cons f f' fields fields' hf hfields ih =>
    obtain ⟨hn, hdetermined⟩ := hf
    rw [width_cons] at hwidth h
    have hfield : f = f' := by
      refine Prod.ext hn (hdetermined fun b hb => ?_)
      have hbit := h b (by omega)
      rwa [getLsbD_pack_cons_of_lt hb, getLsbD_pack_cons_of_lt (hn ▸ hb)] at hbit
    subst hfield
    refine congrArg (f :: ·) (ih (by omega) fun b hb => ?_)
    have hbit := h (f.1 + b) (by omega)
    rw [getLsbD_pack_cons_add (by omega), getLsbD_pack_cons_add (by omega)] at hbit
    exact Bool.xor_right_inj.1 hbit

/-- Fields without bits from their widths on are determined by the bits below. -/
lemma determined_of_isBelow (hfst : fields.map Prod.fst = fields'.map Prod.fst)
    (h : ∀ f ∈ fields, IsBelow f.1 f.2) (h' : ∀ f ∈ fields', IsBelow f.1 f.2) :
    List.Forall₂ (fun f f' => f.1 = f'.1 ∧ (AgreeBelow f.1 f.2 f'.2 → f.2 = f'.2))
      fields fields' := by
  induction fields generalizing fields' with
  | nil =>
    obtain rfl : fields' = [] := map_eq_nil_iff.1 hfst.symm
    exact .nil
  | cons f fields ih =>
    cases fields' with
    | nil => exact absurd hfst (by simp)
    | cons f' fields' =>
      obtain ⟨hn, hfst⟩ := List.cons.inj hfst
      have hbelow := h' f' mem_cons_self
      rw [← hn] at hbelow
      refine .cons ⟨hn, fun hagree => hagree.eq (h f mem_cons_self) hbelow⟩ (ih hfst ?_ ?_)
      · exact fun g hg => h g (mem_cons_of_mem _ hg)
      · exact fun g hg => h' g (mem_cons_of_mem _ hg)

/-- Above the total width, each bit is the exclusive or of the bits the fields are filled with. -/
lemma isFilled_pack {signs : List Bool}
    (h : List.Forall₂ (fun f sign => IsFilled f.1 sign f.2) fields signs) :
    IsFilled (width fields) (signs.foldr (· ^^ ·) false) (pack fields) := by
  induction h with
  | nil => simp [IsFilled, pack]
  | @cons f sign fields signs hf hfields ih =>
    intro b hb hbw
    rw [width_cons] at hb
    obtain ⟨c, rfl⟩ : ∃ c, b = f.1 + c := Nat.exists_eq_add_of_le (by omega)
    rw [getLsbD_pack_cons_add hbw, hf _ (by omega) hbw, ih c (by omega) (by omega)]
    rfl

lemma isBelow_pack (h : ∀ f ∈ fields, IsBelow f.1 f.2) : IsBelow (width fields) (pack fields) := by
  have hfill : List.Forall₂ (fun f sign => IsFilled f.1 sign f.2) fields
      (List.replicate fields.length false) := by
    induction fields with
    | nil => exact .nil
    | cons f fields ih =>
      exact .cons (h f mem_cons_self).isFilled
        (ih fun g hg => h g (mem_cons_of_mem _ hg))
  have hsign : ∀ n, (List.replicate n false).foldr (· ^^ ·) false = false := by
    intro n
    induction n with
    | zero => rfl
    | succ n ih => rw [replicate_succ, foldr_cons, ih, Bool.xor_self]
  have hpack := isFilled_pack hfill
  rw [hsign] at hpack
  exact hpack.isBelow

/-! ### Packing one by one -/

/-- The fields, each shifted past an offset and the widths of those before it. -/
def shifted (offset : Nat) : List (Nat × BitVec w) → List (BitVec w)
  | [] => []
  | field :: fields => field.2 <<< offset :: shifted (offset + field.1) fields

lemma shifted_append (offset : Nat) (fields fields' : List (Nat × BitVec w)) :
    shifted offset (fields ++ fields') =
      shifted offset fields ++ shifted (offset + width fields) fields' := by
  induction fields generalizing offset with
  | nil => rfl
  | cons f fields ih => simp [shifted, ih, Nat.add_assoc]

lemma foldl_xor_shifted (word : BitVec w) (offset : Nat) (fields : List (Nat × BitVec w)) :
    (shifted offset fields).foldl (· ^^^ ·) word = word ^^^ (pack fields <<< offset) := by
  induction fields generalizing word offset with
  | nil => simp [shifted, pack]
  | cons f fields ih =>
    rw [shifted, foldl_cons, ih, pack, BitVec.shiftLeft_xor_distrib, Nat.add_comm offset,
      BitVec.shiftLeft_add, BitVec.xor_assoc]

/-! ### Extracting bits -/

/-- Some bits of a word, moved to the lowest position, by a shift to the left and one back. -/
def extract (position length : Nat) (x : BitVec w) : BitVec w :=
  (x <<< (w - position - length)) >>> (w - length)

lemma getLsbD_extract {position length : Nat} (h : position + length ≤ w) (x : BitVec w) (b : Nat) :
    (extract position length x).getLsbD b = (decide (b < length) && x.getLsbD (position + b)) := by
  by_cases hb : b < length
  · have hword : w - length + b < w := by omega
    have hshift : ¬ w - length + b < w - position - length := by omega
    have hindex : w - length + b - (w - position - length) = position + b := by omega
    rw [extract, BitVec.getLsbD_ushiftRight, BitVec.getLsbD_shiftLeft, hindex]
    simp [hb, hword, hshift]
  · have hword : ¬ w - length + b < w := by omega
    simp [extract, hb, hword]

end Gqe.BitFields
