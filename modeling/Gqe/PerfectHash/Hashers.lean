import Gqe.Lib.BitFields
import Gqe.PerfectHash.Basic

/-!
# Encodings of keys

Every hasher packs fields of the elements of a row into the bits it counts, so the hash modulo the
size of a perfect hash table tells rows apart. The hash itself may be larger than the table: a
negative element is extended by its sign and fills the bits above its field.
-/

namespace Gqe.PerfectHash

open BitFields List BitVec

/-! ### Elements -/

/-- The types whose elements `operator[]` extends by their sign. -/
def isSigned : DataType → Bool
  | .int8 | .int16 | .int32 | .int64 | .float32 | .float64 | .timestampDays => true
  | _ => false

@[simp] def elementBits (type : DataType) : Nat := 8 * elementSize type

/-- An element of a signed type with its sign bit set. -/
def isNegative (type : DataType) (bits : BitVec 64) : Bool :=
  isSigned type && bits.getLsbD (elementBits type - 1)

lemma readElement_eq (type : DataType) (bits : BitVec 64) : readElement type bits =
      if isSigned type then signExtendFrom (elementBits type) bits else bits := by
  cases type <;> rfl

variable {type : DataType}

lemma elementBits_of_isKnown (h : isKnown type) : 0 < elementBits type ∧ elementBits type ≤ 64 := by
  cases type <;> simp_all [isKnown, elementSize]

variable {n : Nat}

lemma getLsbD_signExtendFrom {b : Nat} (hn : 0 < n) (hb : b < 64) (bits : BitVec 64) :
    (signExtendFrom n bits).getLsbD b = if b < n then bits.getLsbD b else bits.getLsbD (n - 1) := by
  have hlast : n - 1 < n := Nat.sub_one_lt_of_lt hn
  rw [signExtendFrom, getLsbD_signExtend, msb_eq_getLsbD_last]
  by_cases hbn : b < n
  · simp [hb, hbn]
  · simp [hb, hbn, hlast]

lemma agreeBelow_signExtend (hn : 0 < n) (hn64 : n ≤ 64) (bits : BitVec 64) :
    AgreeBelow n (signExtendFrom n bits) bits := by
  intro b hb
  rw [getLsbD_signExtendFrom hn (by omega), if_pos hb]

variable {bits : BitVec 64}

lemma isFilled_signExtend {s : Nat} (hn : 0 < n) (hs : s ≤ n)
    (hbits : IsBelow s bits) : IsFilled s (bits.getLsbD (n - 1)) (signExtendFrom n bits) := by
  intro b hsb hb
  rw [getLsbD_signExtendFrom hn hb]
  split
  · rw [hbits b hsb, hbits (n - 1) (by omega)]
  · rfl

lemma signExtendFrom_eq (hn : 0 < n) (hn64 : n ≤ 64) (hbits : IsBelow n bits)
    (hsign : bits.getLsbD (n - 1) = false) : signExtendFrom n bits = bits := by
  have hfill := isFilled_signExtend hn (Nat.le_refl n) hbits
  rw [hsign] at hfill
  exact (agreeBelow_signExtend hn hn64 bits).eq hfill.isBelow hbits

lemma agreeBelow_read (h : isKnown type) (bits : BitVec 64) :
    AgreeBelow (elementBits type) (readElement type bits) bits := by
  obtain ⟨hpos, hle⟩ := elementBits_of_isKnown h
  rw [readElement_eq]
  split
  · exact agreeBelow_signExtend hpos hle bits
  · exact fun b _ => rfl

lemma isFilled_readElement (h : isKnown type) {s : Nat} (hs : s ≤ elementBits type)
    (hbits : IsBelow s bits) : IsFilled s (isNegative type bits) (readElement type bits) := by
  rw [readElement_eq, isNegative]
  cases isSigned type with
  | false => simpa using hbits.isFilled
  | true => simpa using isFilled_signExtend (elementBits_of_isKnown h).1 hs hbits

/-! ### Elements and the bits in use -/

/-- The combination of the elements of a column: no bits beyond the elements' width. -/
structure AndOr.IsNarrow (andOr : AndOr) : Prop where
  isKnown : isKnown andOr.type
  andValue : IsBelow (elementBits andOr.type) andOr.andValue
  orValue : IsBelow (elementBits andOr.type) andOr.orValue

/-- An element has all bits that all elements have, and no bits that none has. -/
structure AndOr.IsBetween (andOr : AndOr) (bits : BitVec 64) : Prop where
  of_and : ∀ b, andOr.andValue.getLsbD b = true → bits.getLsbD b = true
  to_or : ∀ b, bits.getLsbD b = true → andOr.orValue.getLsbD b = true

namespace AndOr.IsBetween

variable {andOr : AndOr} {bits bits' : BitVec 64}

section

variable (h : andOr.IsBetween bits)
include h

lemma getLsbD_eq_false {b : Nat} (hor : andOr.orValue.getLsbD b = false) :
    bits.getLsbD b = false := by
  refine Bool.eq_false_iff.2 fun hbit => ?_
  rw [h.to_or b hbit] at hor
  exact Bool.noConfusion hor

lemma isBelow (hor : IsBelow n andOr.orValue) : IsBelow n bits :=
  fun b hb => h.getLsbD_eq_false (hor b hb)

/-- Elements can only differ in bits that some have and some do not. -/
lemma eq_of_xor (h' : andOr.IsBetween bits')
    (hxor : ∀ b, (andOr.andValue ^^^ andOr.orValue).getLsbD b = true →
      bits.getLsbD b = bits'.getLsbD b) : bits = bits' := by
  refine eq_of_getLsbD_eq fun b _ => ?_
  by_cases hb : (andOr.andValue ^^^ andOr.orValue).getLsbD b = true
  · exact hxor b hb
  · cases hand : andOr.andValue.getLsbD b with
    | true => rw [h.of_and b hand, h'.of_and b hand]
    | false =>
      have hor : andOr.orValue.getLsbD b = false := by simpa [hand] using hb
      rw [h.getLsbD_eq_false hor, h'.getLsbD_eq_false hor]

end

end AndOr.IsBetween

/-! ### What makes an encoding -/

/-- The elements of a row, column by column. -/
def IsRow (andOrs : List AndOr) (bits : List (BitVec 64)) : Prop :=
  List.Forall₂ AndOr.IsBetween andOrs bits

/-- Whether the bits above those that count are set in the hash of a row. -/
def Hasher.overflows (hasher : Hasher) (types : List DataType) (bits : List (BitVec 64)) : Bool :=
  match hasher, bits with
  | .identity8x8 _, bits0 :: _ => bits0.getLsbD 7
  | .shift1 _ _, bits => (zipWith isNegative types bits).foldr (· ^^ ·) false
  | _, _ => false

/-- A hasher packs fields into the bits it counts: each field is determined by the bits that are
packed within its width, and a row by its fields. -/
structure IsEncoding (hasher : Hasher) (andOrs : List AndOr)
    (fields : List (BitVec 64) → List (Nat × BitVec 64)) : Prop where
  hash_eq : ∀ bits, IsRow andOrs bits →
    hasher.hash (andOrs.map AndOr.type) bits = pack (fields bits)
  width_eq : ∀ bits, IsRow andOrs bits → width (fields bits) = hasher.totalSignificantBits
  determined : ∀ bits bits', IsRow andOrs bits → IsRow andOrs bits' →
    List.Forall₂ (fun f f' => f.1 = f'.1 ∧ (AgreeBelow f.1 f.2 f'.2 → f.2 = f'.2))
      (fields bits) (fields bits')
  injective : ∀ bits bits', IsRow andOrs bits → IsRow andOrs bits' →
    fields bits = fields bits' → bits = bits'
  filled : ∀ bits, IsRow andOrs bits →
    IsFilled hasher.totalSignificantBits (hasher.overflows (andOrs.map AndOr.type) bits)
      (hasher.hash (andOrs.map AndOr.type) bits)

namespace IsEncoding

variable {hasher : Hasher} {andOrs : List AndOr}
  {fields : List (BitVec 64) → List (Nat × BitVec 64)}

/-- Rows whose hashes agree on the bits that count are equal. -/
lemma eq_of_agreeBelow (h : IsEncoding hasher andOrs fields)
    (htot : hasher.totalSignificantBits ≤ 64) {bits bits' : List (BitVec 64)}
    (hbits : IsRow andOrs bits) (hbits' : IsRow andOrs bits')
    (hagree : AgreeBelow hasher.totalSignificantBits (hasher.hash (andOrs.map AndOr.type) bits)
      (hasher.hash (andOrs.map AndOr.type) bits')) : bits = bits' := by
  rw [h.hash_eq bits hbits, h.hash_eq bits' hbits', ← h.width_eq bits hbits] at hagree
  rw [← h.width_eq bits hbits] at htot
  exact h.injective bits bits' hbits hbits'
    (eq_of_agreeBelow_pack (h.determined bits bits' hbits hbits') htot hagree)

/-- The hash is in the range of the table unless the bits above those that count are set. -/
lemma toNat_lt_iff (h : IsEncoding hasher andOrs fields) (htot : hasher.totalSignificantBits < 64)
    {bits : List (BitVec 64)} (hbits : IsRow andOrs bits) :
    (hasher.hash (andOrs.map AndOr.type) bits).toNat < 2 ^ hasher.totalSignificantBits ↔
      hasher.overflows (andOrs.map AndOr.type) bits = false := by
  have hfill := h.filled bits hbits
  rw [← isBelow_iff]
  constructor
  · intro hbelow
    rw [← hfill _ (Nat.le_refl _) htot]
    exact hbelow _ (Nat.le_refl _)
  · intro hovf
    rw [hovf] at hfill
    exact hfill.isBelow

end IsEncoding

/-! ### Fields that are whole elements -/

/-- The elements of a row, each read as an integer of some type and packed into a field of some
width. -/
def readFields (columns : List (Nat × DataType)) (bits : List (BitVec 64)) :
    List (Nat × BitVec 64) :=
  zipWith (fun column bits => (column.1, readElement column.2 bits)) columns bits

/-- A field that is wide enough for the elements of a column. -/
structure FitsField (andOr : AndOr) (column : Nat × DataType) : Prop where
  isKnown : isKnown column.2
  le_elementBits : column.1 ≤ elementBits column.2
  isBelow : IsBelow column.1 andOr.orValue

lemma FitsField.eq_of_agreeBelow {andOr : AndOr} {column : Nat × DataType}
    (h : FitsField andOr column) {x y : BitVec 64} (hx : andOr.IsBetween x) (hy : andOr.IsBetween y)
    (hagree : AgreeBelow column.1 (readElement column.2 x) (readElement column.2 y)) : x = y := by
  refine AgreeBelow.eq (fun b hb => ?_) (hx.isBelow h.isBelow) (hy.isBelow h.isBelow)
  have hread := fun x => agreeBelow_read h.isKnown x b (Nat.lt_of_lt_of_le hb h.le_elementBits)
  rw [← hread x, ← hread y, hagree b hb]

section

variable {andOrs : List AndOr} {columns : List (Nat × DataType)}
  (hfits : List.Forall₂ FitsField andOrs columns)

include hfits

lemma width_readFields {bits : List (BitVec 64)} (hbits : IsRow andOrs bits) :
    width (readFields columns bits) = (columns.map Prod.fst).sum := by
  induction hfits generalizing bits with
  | nil => rfl
  | cons _ _ ih =>
    cases hbits with
    | cons _ hbits => exact congrArg _ (ih hbits)

variable {bits bits' : List (BitVec 64)}

lemma determined_readFields (hbits : IsRow andOrs bits) (hbits' : IsRow andOrs bits') :
    List.Forall₂ (fun f f' => f.1 = f'.1 ∧ (AgreeBelow f.1 f.2 f'.2 → f.2 = f'.2))
      (readFields columns bits) (readFields columns bits') := by
  induction hfits generalizing bits bits' with
  | nil => exact .nil
  | cons h _ ih =>
    cases hbits with
    | cons hx hbits =>
      cases hbits' with
      | cons hy hbits' =>
        refine .cons ⟨rfl, fun hagree => ?_⟩ (ih hbits hbits')
        rw [h.eq_of_agreeBelow hx hy hagree]

lemma readFields_injective (hbits : IsRow andOrs bits) (hbits' : IsRow andOrs bits')
    (heq : readFields columns bits = readFields columns bits') : bits = bits' := by
  induction hfits generalizing bits bits' with
  | nil =>
    cases hbits
    cases hbits'
    rfl
  | @cons andOr column _ _ h _ ih =>
    cases hbits with
    | @cons _ x _ _ hx hbits =>
      cases hbits' with
      | @cons _ y _ _ hy hbits' =>
        obtain ⟨hfield, hfields⟩ := cons.inj heq
        have hread : readElement column.2 x = readElement column.2 y := (Prod.mk.inj hfield).2
        rw [h.eq_of_agreeBelow hx hy fun b _ => by rw [hread], ih hbits hbits' hfields]

lemma isFilled_readFields {bits : List (BitVec 64)} (hbits : IsRow andOrs bits) :
    List.Forall₂ (fun f sign => IsFilled f.1 sign f.2) (readFields columns bits)
      (zipWith (fun column bits => isNegative column.2 bits) columns bits) := by
  induction hfits generalizing bits with
  | nil => exact .nil
  | cons h _ ih =>
    cases hbits with
    | cons hx hbits =>
      exact .cons
        (isFilled_readElement h.isKnown h.le_elementBits (hx.isBelow h.isBelow)) (ih hbits)

/-- A hasher that packs elements into fields that are wide enough. -/
lemma isEncoding_readFields {hasher : Hasher}
    (hhash : ∀ bits, IsRow andOrs bits →
      hasher.hash (andOrs.map AndOr.type) bits = pack (readFields columns bits))
    (htot : (columns.map Prod.fst).sum = hasher.totalSignificantBits)
    (hovf : ∀ bits, IsRow andOrs bits → hasher.overflows (andOrs.map AndOr.type) bits =
        (zipWith (fun column bits => isNegative column.2 bits) columns bits).foldr
          (· ^^ ·) false) :
    IsEncoding hasher andOrs (readFields columns) where
  hash_eq := hhash
  width_eq _ hbits := (width_readFields hfits hbits).trans htot
  determined _ _ := determined_readFields hfits
  injective _ _ := readFields_injective hfits
  filled bits hbits := by
    rw [hhash bits hbits, hovf bits hbits, ← htot, ← width_readFields hfits hbits]
    exact isFilled_pack (isFilled_readFields hfits hbits)

end

/-! ### The identity -/

variable {size : Nat}

/-- The leading zeros of a signed integer of one or two bytes are those of its extension. -/
lemma leadingZeros_of_lt_four (hsz : size < 4) (value : BitVec 64) :
    8 * (size : Int) - leadingZeros size value =
      64 - (signExtendFrom (8 * size) value).clz.toNat := by
  rw [leadingZeros]
  omega

/-- An integer that uses few bits when it is read as a signed one does not use the sign bit. -/
structure IsSmall (size bits : Nat) (value : BitVec 64) : Prop where
  isBelow : IsBelow bits value
  le : bits ≤ 8 * size
  sign : value.getLsbD (8 * size - 1) = false

variable {value : BitVec 64}

lemma isSmall_of_lt_four (hpos : 0 < size) (hlt : size < 4)
    (hvalue : IsBelow (8 * size) value)
    (h : (8 * (size : Int) - leadingZeros size value).toNat ≤ 20) :
    IsSmall size (8 * (size : Int) - leadingZeros size value).toNat value := by
  have hbits := leadingZeros_of_lt_four hlt value
  have hextended : IsBelow (8 * (size : Int) - leadingZeros size value).toNat
      (signExtendFrom (8 * size) value) := (sub_clz_le_iff (by omega)).1 (by omega)
  have hsign : value.getLsbD (8 * size - 1) = false := by
    have hlast := hextended 63 (by omega)
    rwa [getLsbD_signExtendFrom (by omega) (by omega), if_neg (by omega)] at hlast
  rw [signExtendFrom_eq (by omega) (by omega) hvalue hsign] at hextended hbits
  have hle : 64 - value.clz.toNat ≤ 8 * size := (sub_clz_le_iff (by omega)).2 hvalue
  exact ⟨hextended, by omega, hsign⟩

lemma isSmall_of_leadingZeros (hsz : size = 1 ∨ size = 2 ∨ size = 4 ∨ size = 8)
    (hvalue : IsBelow (8 * size) value)
    (h : (8 * (size : Int) - leadingZeros size value).toNat ≤ 20) :
    IsSmall size (8 * (size : Int) - leadingZeros size value).toNat value := by
  rcases hsz with rfl | rfl | rfl | rfl
  · exact isSmall_of_lt_four (by omega) (by omega) hvalue h
  · exact isSmall_of_lt_four (by omega) (by omega) hvalue h
  · have hbits : (8 * ((4 : Nat) : Int) - leadingZeros 4 value).toNat =
        32 - (value.setWidth 32).clz.toNat := by
      rw [leadingZeros]
      omega
    rw [hbits] at h ⊢
    have hword : IsBelow (32 - (value.setWidth 32).clz.toNat) (value.setWidth 32) :=
      (sub_clz_le_iff (by omega)).1 (Nat.le_refl _)
    have hbelow : IsBelow (32 - (value.setWidth 32).clz.toNat) value := by
      intro b hb
      by_cases hb32 : b < 32
      · have hbit := hword b hb
        simpa [hb32] using hbit
      · exact hvalue b (by omega)
    exact ⟨hbelow, by omega, hbelow 31 (by omega)⟩
  · have hbits : (8 * ((8 : Nat) : Int) - leadingZeros 8 value).toNat = 64 - value.clz.toNat := by
      rw [leadingZeros]
      omega
    rw [hbits] at h ⊢
    have hbelow : IsBelow (64 - value.clz.toNat) value :=
      (sub_clz_le_iff (by omega)).1 (Nat.le_refl _)
    exact ⟨hbelow, by omega, hbelow 63 (by omega)⟩

def signedType : Nat → DataType
  | 1 => .int8
  | 2 => .int16
  | 4 => .int32
  | _ => .int64

lemma isEncoding_identity {andOr : AndOr} {total : Nat}
    (hsz : size = 1 ∨ size = 2 ∨ size = 4 ∨ size = 8) (hor : IsBelow (8 * size) andOr.orValue)
    (htot : total = (8 * (size : Int) - leadingZeros size andOr.orValue).toNat) (hle : total ≤ 20) :
    IsEncoding (.identity size total) [andOr] (readFields [(total, signedType size)]) := by
  have hsm := isSmall_of_leadingZeros hsz hor (htot ▸ hle)
  rw [← htot] at hsm
  have hread : ∀ x, readElement (signedType size) x = signExtendFrom (8 * size) x := by
    rcases hsz with rfl | rfl | rfl | rfl <;> exact fun _ => rfl
  have hfits : FitsField andOr (total, signedType size) := by
    refine ⟨?_, ?_, hsm.isBelow⟩
    · rcases hsz with rfl | rfl | rfl | rfl <;> rfl
    · have hle := hsm.le
      rcases hsz with rfl | rfl | rfl | rfl <;> exact hle
  have hnegative : ∀ x, andOr.IsBetween x → isNegative (signedType size) x = false := by
    intro x hx
    have hsign := hx.getLsbD_eq_false hsm.sign
    rcases hsz with rfl | rfl | rfl | rfl <;> exact hsign
  refine isEncoding_readFields (.cons hfits .nil) ?_ (Nat.add_zero _) ?_
  · rintro bits (_ | ⟨hx, _ | _⟩)
    simp [Hasher.hash, readFields, pack, hread]
  · rintro bits (_ | ⟨hx, _ | _⟩)
    simp [Hasher.overflows, hnegative _ hx]

lemma leadingZeros_one_le_iff (hvalue : IsBelow 8 value) :
    (8 - leadingZeros 1 value + 8).toNat ≤ 20 ↔ value.getLsbD 7 = false := by
  have hbits := leadingZeros_of_lt_four (show 1 < 4 by omega) value
  constructor
  · intro h
    exact (isSmall_of_leadingZeros (show 1 = 1 ∨ _ from .inl rfl) hvalue (by omega)).sign
  · intro h
    rw [signExtendFrom_eq (by omega) (by omega) hvalue h] at hbits
    have hle : 64 - value.clz.toNat ≤ 8 := (sub_clz_le_iff (by omega)).2 hvalue
    omega

lemma isEncoding_identity8x8 {andOr0 andOr1 : AndOr} (hor0 : IsBelow 8 andOr0.orValue)
    (hor1 : IsBelow 8 andOr1.orValue) {total : Nat}
    (htot : total = (8 - leadingZeros 1 andOr1.orValue + 8).toNat) (hle : total ≤ 20) :
    IsEncoding (.identity8x8 total) [andOr0, andOr1]
      (readFields [(8, .int8), (total - 8, .int8)]) := by
  have hsign := (leadingZeros_one_le_iff hor1).1 (htot ▸ hle)
  have hbits := leadingZeros_of_lt_four (show 1 < 4 by omega) andOr1.orValue
  rw [signExtendFrom_eq (by omega) (by omega) hor1 hsign] at hbits
  have hle8 : 64 - andOr1.orValue.clz.toNat ≤ 8 := (sub_clz_le_iff (by omega)).2 hor1
  have hclz : andOr1.orValue.clz.toNat ≤ 64 := by
    simpa [le_def] using clz_le
  have hfits1 : FitsField andOr1 (total - 8, .int8) := by
    refine ⟨rfl, ?_, (sub_clz_le_iff (by omega)).1 (by omega)⟩
    show total - 8 ≤ 8
    omega
  have hnegative : ∀ x, andOr1.IsBetween x → isNegative .int8 x = false :=
    fun x hx => hx.getLsbD_eq_false hsign
  refine isEncoding_readFields (.cons ⟨rfl, Nat.le_refl 8, hor0⟩ (.cons hfits1 .nil)) ?_ ?_ ?_
  · rintro bits (_ | ⟨hx, _ | ⟨hy, _ | _⟩⟩)
    simp [Hasher.hash, readFields, pack, readElement]
  · show 8 + (total - 8 + 0) = total
    omega
  · rintro bits (_ | ⟨hx, _ | ⟨hy, _ | _⟩⟩)
    simp [hnegative _ hy]
    rfl

end Gqe.PerfectHash
