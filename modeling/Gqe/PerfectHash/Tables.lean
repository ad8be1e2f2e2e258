import Gqe.Lib.Fallible
import Gqe.Lib.Scatter
import Gqe.PerfectHash.Shifts

/-!
# Hash tables of keys

The hasher that is chosen is an encoding of the rows its bits were counted for. A hash table without
hashes beyond its end finds the row with the bits that are looked up: a perfect one by the hash
alone, another one by probing.
-/

namespace Gqe.PerfectHash

open BitFields List HashTable Scatter AndOr Fallible

/-! ### The choice of the hasher -/

/-- Two columns of single bytes for which the identity is taken. -/
@[simp] def isBytePair : List AndOr → Bool
  | [andOr0, andOr1] =>
    elementSize andOr0.type = 1 && elementSize andOr1.type = 1 && !andOr1.orValue.getLsbD 7
  | _ => false

def isOddNegative (types : List DataType) (bits : List (BitVec 64)) : Bool :=
  (List.zipWith isNegative types bits).foldr (· ^^ ·) false

/-- Whether the hash of a row goes beyond the bits that count. -/
def overflows (andOrs : List AndOr) (bits : List (BitVec 64)) : Bool :=
  if isBytePair andOrs then (bits.headD 0).getLsbD 7
  else significantBits andOrs ≤ 20 && isOddNegative (andOrs.map type) bits

/-- What is known of a hasher that was made for some rows. -/
structure IsHasherFor (andOrs : List AndOr) (hasher : Hasher) : Prop where
  isEncoding : hasher.totalSignificantBits ≤ 64 → ∃ fields, IsEncoding hasher andOrs fields
  overflows_eq : ∀ bits, IsRow andOrs bits →
    hasher.overflows (andOrs.map type) bits = overflows andOrs bits
  le_of_overflows : ∀ bits, overflows andOrs bits = true → hasher.totalSignificantBits ≤ 20

/-- The hashers that are tried last. -/
def makeShiftHasher (andOrs : List AndOr) : Except Failure Hasher :=
  orTry (makeShift1Hasher andOrs) (.ok (makeShift3Hasher andOrs))

/-- A column of zeros is among those whose leading zeros are counted: the second of two columns of
bytes for which the identity is taken, and any other column. -/
def countsZero (andOrs : List AndOr) : Bool :=
  if isBytePair andOrs then hasZero andOrs.tail else hasZero andOrs

lemma makeShiftHasher_of_hasZero {andOrs : List AndOr} (h : hasZero andOrs = true) :
    makeShiftHasher andOrs = .error .undefined := by
  simp [makeShiftHasher, makeShift1Hasher, shift1Instructions_eq, h, orTry]

section

variable {andOrs : List AndOr} (hnarrow : ∀ andOr ∈ andOrs, andOr.IsNarrow)

include hnarrow

/-- Without a column of zeros, a hasher of shifts is made. -/
lemma isHasherFor_shifts (hpair : isBytePair andOrs = false) (hzero : hasZero andOrs = false) :
    ∃ hasher, makeShiftHasher andOrs = .ok hasher ∧ IsHasherFor andOrs hasher := by
  have hovf : ∀ bits, overflows andOrs bits =
      (decide (significantBits andOrs ≤ 20) && isOddNegative (andOrs.map type) bits) := by
    intro bits
    rw [overflows, hpair]
    rfl
  have hshift1 := shift1Instructions_eq andOrs 0
  rw [hzero, if_neg Bool.false_ne_true, Nat.zero_add] at hshift1
  by_cases hbits : significantBits andOrs ≤ 20
  · refine ⟨.shift1 (shift1Program andOrs 0) (significantBits andOrs), ?_,
      fun _ => ⟨_, isEncoding_shift1 hnarrow hbits⟩, fun bits _ => ?_, fun _ _ => hbits⟩
    · rw [makeShiftHasher, makeShift1Hasher, hshift1, ok_bind, if_neg (Nat.not_lt.2 hbits)]
      rfl
    · rw [hovf, decide_eq_true hbits]
      rfl
  · refine ⟨makeShift3Hasher andOrs, ?_, isEncoding_shift3 hnarrow, fun bits _ => ?_,
      fun bits h => ?_⟩
    · rw [makeShiftHasher, makeShift1Hasher, hshift1, ok_bind, if_pos (Nat.lt_of_not_le hbits)]
      rfl
    · rw [hovf, decide_eq_false hbits]
      rfl
    · rw [hovf, decide_eq_false hbits] at h
      exact Bool.noConfusion h

end

lemma elementSize_of_isKnown {type : DataType} (h : isKnown type) :
    elementSize type = 1 ∨ elementSize type = 2 ∨ elementSize type = 4 ∨ elementSize type = 8 := by
  cases type <;> simp_all [isKnown, elementSize]

variable {andOr : AndOr}

/-- The identity of one column is tried for the size of its elements only. -/
lemma makeHasher_singleton (h : isKnown andOr.type) : makeHasher [andOr] =
    orTry (makeIdentityHasher (elementSize andOr.type) [andOr]) (makeShiftHasher [andOr]) := by
  have hne : ∀ size, elementSize andOr.type ≠ size → makeIdentityHasher size [andOr] = .ok none :=
    fun _ h => if_pos h
  rw [makeHasher]
  rcases elementSize_of_isKnown h with hsize | hsize | hsize | hsize
  · rw [hsize, hne 2 (by omega), hne 4 (by omega), hne 8 (by omega)]
    rfl
  · rw [hsize, hne 1 (by omega), hne 4 (by omega), hne 8 (by omega)]
    rfl
  · rw [hsize, hne 1 (by omega), hne 2 (by omega), hne 8 (by omega)]
    rfl
  · rw [hsize, hne 1 (by omega), hne 2 (by omega), hne 4 (by omega)]
    rfl

lemma isHasherFor_identity (h : andOr.IsNarrow) {total : Nat} (htot : total =
      (8 * (elementSize andOr.type : Int) -
        leadingZeros (elementSize andOr.type) andOr.orValue).toNat)
    (hle : total ≤ 20) : IsHasherFor [andOr] (.identity (elementSize andOr.type) total) := by
  have hsize := elementSize_of_isKnown h.isKnown
  have hsm := isSmall_of_leadingZeros hsize h.orValue (htot ▸ hle)
  refine ⟨fun _ => ⟨_, isEncoding_identity hsize h.orValue htot hle⟩, ?_, fun _ _ => hle⟩
  rintro bits (_ | ⟨hx, _ | _⟩)
  -- No element is negative, since none has the sign bit.
  have hsign := hx.getLsbD_eq_false hsm.sign
  simp [Hasher.overflows, overflows, isOddNegative, isNegative, hsign]

/-- What comes of choosing a hasher. -/
def Chooses (andOrs : List AndOr) : Prop :=
  if countsZero andOrs then makeHasher andOrs = .error .undefined
  else ∃ hasher, makeHasher andOrs = .ok hasher ∧ IsHasherFor andOrs hasher

lemma chooses_singleton (h : andOr.IsNarrow) : Chooses [andOr] := by
  unfold Chooses
  rw [makeHasher_singleton h.isKnown, makeIdentityHasher, if_neg (not_not.2 rfl)]
  by_cases hzero : andOr.orValue = 0#64
  · simp [countsZero, hasZero, hzero, clz, orTry]
  · have hcounts : countsZero [andOr] = false := by simp [countsZero, hasZero, hzero]
    rw [hcounts, if_neg Bool.false_ne_true, clz, if_neg hzero]
    simp only [ok_bind]
    split_ifs with hbits
    · exact isHasherFor_shifts (by simpa using h) rfl (by simpa [hasZero] using hzero)
    · exact ⟨_, rfl, isHasherFor_identity h rfl (Nat.le_of_not_lt hbits)⟩

lemma isHasherFor_identity8x8 {andOr0 andOr1 : AndOr} (h0 : andOr0.IsNarrow) (h1 : andOr1.IsNarrow)
    (hsize0 : elementSize andOr0.type = 1) (hsize1 : elementSize andOr1.type = 1) {total : Nat}
    (htot : total = (8 - leadingZeros 1 andOr1.orValue + 8).toNat) (hle : total ≤ 20) :
    IsHasherFor [andOr0, andOr1] (.identity8x8 total) := by
  have hor0 : IsBelow 8 andOr0.orValue := by simpa [hsize0] using h0.orValue
  have hor1 : IsBelow 8 andOr1.orValue := by simpa [hsize1] using h1.orValue
  have hsign := (leadingZeros_one_le_iff hor1).1 (htot ▸ hle)
  refine ⟨fun _ => ⟨_, isEncoding_identity8x8 hor0 hor1 htot hle⟩, ?_, fun _ _ => hle⟩
  rintro bits (_ | ⟨hx, _ | ⟨hy, _ | _⟩⟩)
  simp [Hasher.overflows, overflows, hsize0, hsize1, hsign, -BitVec.getLsbD_eq_getElem]

lemma makeHasher_pair (andOr0 andOr1 : AndOr) : makeHasher [andOr0, andOr1] =
    orTry (makeIdentityHasher8x8 [andOr0, andOr1]) (makeShiftHasher [andOr0, andOr1]) :=
  rfl

section

variable {andOrs : List AndOr} (hnarrow : ∀ andOr ∈ andOrs, andOr.IsNarrow)

include hnarrow

lemma chooses_shifts (h : makeHasher andOrs = makeShiftHasher andOrs)
    (hpair : isBytePair andOrs = false) : Chooses andOrs := by
  have hcounts : countsZero andOrs = hasZero andOrs := by rw [countsZero, hpair]; rfl
  rw [Chooses, hcounts, h]
  split_ifs with hzero
  · exact makeShiftHasher_of_hasZero hzero
  · exact isHasherFor_shifts hnarrow hpair (Bool.eq_false_iff.2 hzero)

end

lemma chooses_pair {andOr0 andOr1 : AndOr} (h0 : andOr0.IsNarrow) (h1 : andOr1.IsNarrow) :
    Chooses [andOr0, andOr1] := by
  have hnarrow : ∀ andOr ∈ [andOr0, andOr1], andOr.IsNarrow := by simp [h0, h1]
  by_cases hsizes : elementSize andOr0.type = 1 ∧ elementSize andOr1.type = 1
  swap
  · refine chooses_shifts hnarrow ?_ (by simpa using fun h h' => absurd ⟨h, h'⟩ hsizes)
    rw [makeHasher_pair, makeIdentityHasher8x8]
    split_ifs with h0 h1
    · rfl
    · rfl
    · exact absurd ⟨not_not.1 h0, not_not.1 h1⟩ hsizes
  obtain ⟨hsize0, hsize1⟩ := hsizes
  have hor1 : IsBelow 8 andOr1.orValue := by simpa [hsize1] using h1.orValue
  have hmake : makeHasher [andOr0, andOr1] = orTry (do
      let zeros ← clz 1 andOr1.orValue
      .ok (if 20 < (8 - zeros + 8).toNat then none
        else some (.identity8x8 (8 - zeros + 8).toNat))) (makeShiftHasher [andOr0, andOr1]) := by
    rw [makeHasher_pair, makeIdentityHasher8x8, if_neg (not_not.2 hsize0),
      if_neg (not_not.2 hsize1)]
  by_cases hzero : andOr1.orValue = 0#64
  · have hcounts : countsZero [andOr0, andOr1] = true := by simp [countsZero, hasZero, hzero]
    rw [Chooses, hcounts, if_pos rfl, hmake, clz, if_pos hzero]
    rfl
  rw [clz, if_neg hzero, ok_bind] at hmake
  cases hsign : andOr1.orValue.getLsbD 7 with
  | true =>
    -- The second column has too many bits for the identity.
    have hbits : 20 < (8 - leadingZeros 1 andOr1.orValue + 8).toNat := by
      by_contra hle
      have hfalse := (leadingZeros_one_le_iff hor1).1 (Nat.le_of_not_lt hle)
      rw [hsign] at hfalse
      cases hfalse
    rw [if_pos hbits] at hmake
    exact chooses_shifts hnarrow hmake (by simp [hsign, -BitVec.getLsbD_eq_getElem])
  | false =>
    have hle := (leadingZeros_one_le_iff hor1).2 hsign
    have hcounts : countsZero [andOr0, andOr1] = false := by
      simp [countsZero, hasZero, hsize0, hsize1, hsign, hzero, -BitVec.getLsbD_eq_getElem]
    rw [if_neg (Nat.not_lt.2 hle)] at hmake
    rw [Chooses, hcounts, if_neg Bool.false_ne_true]
    exact ⟨_, hmake, isHasherFor_identity8x8 h0 h1 hsize0 hsize1 rfl hle⟩

/-- A hasher is chosen unless zeros are counted that are undefined, and it encodes the rows it is
chosen for. -/
lemma chooses_makeHasher {andOrs : List AndOr} (hnarrow : ∀ andOr ∈ andOrs, andOr.IsNarrow) :
    Chooses andOrs := by
  match andOrs with
  | [] => exact chooses_shifts hnarrow rfl rfl
  | [andOr] => exact chooses_singleton (hnarrow andOr (by simp))
  | [andOr0, andOr1] => exact chooses_pair (hnarrow andOr0 (by simp)) (hnarrow andOr1 (by simp))
  | andOr0 :: andOr1 :: andOr2 :: andOrs => exact chooses_shifts hnarrow rfl rfl

/-- The hash is in the range of the hasher unless it goes beyond the bits that count. -/
lemma IsHasherFor.toNat_lt_iff {andOrs : List AndOr} {hasher : Hasher}
    (h : IsHasherFor andOrs hasher) (htot : hasher.totalSignificantBits ≤ 64)
    {bits : List (BitVec 64)} (hbits : IsRow andOrs bits) :
    (hasher.hash (andOrs.map type) bits).toNat < 2 ^ hasher.totalSignificantBits ↔
      overflows andOrs bits = false := by
  obtain ⟨fields, hencoding⟩ := h.isEncoding htot
  rcases Nat.lt_or_eq_of_le htot with hlt | heq
  · rw [hencoding.toNat_lt_iff hlt hbits, h.overflows_eq _ hbits]
  · have hovf : ¬ overflows andOrs bits = true := fun hovf => by
      have hle := h.le_of_overflows _ hovf
      omega
    rw [heq]
    exact ⟨fun _ => Bool.eq_false_iff.2 hovf, fun _ => BitVec.isLt _⟩

lemma perfectHashing_iff {hasher : Hasher} :
    hasher.perfectHashing = true ↔ hasher.totalSignificantBits ≤ 33 := by
  have hmax : maxHashtableSize = 2 ^ 33 := by decide
  have hpow : 2 ^ hasher.totalSignificantBits ≤ 2 ^ 33 ↔ hasher.totalSignificantBits ≤ 33 :=
    Nat.pow_le_pow_iff_right (by omega)
  rw [Hasher.perfectHashing, Hasher.isPerfect, Hasher.max, Bool.and_eq_true, decide_eq_true_iff,
    decide_eq_true_iff]
  omega

/-! ### Rows of keys -/

/-- A table of keys whose columns are among those that some bits were counted for. -/
structure KeyTable.IsOver (andOrs : List AndOr) (keys : KeyTable) : Prop where
  types_eq : keys.types = andOrs.map type
  isRow : ∀ row < keys.numRows, IsRow andOrs (keys.bufferRow row)

def HashTable.hashOf (table : HashTable) (keys : KeyTable) (row : Nat) : Nat :=
  (table.hasher.hash keys.types (keys.bufferRow row)).toNat

/-! ### Perfect hash tables -/

lemma insertAll_of_perfect {table : HashTable} (hperfect : table.hasher.perfectHashing = true)
    (checkEquality : Bool) (keys : KeyTable) (rows : List Nat) :
    table.insertAll checkEquality keys rows =
      if ∀ row ∈ rows, table.hashOf keys row < table.size then
        .ok ⟨table.hasher, table.size, scatter (fun row => some (table.hashOf keys row))
          (fun _ row => some row) table.slots rows⟩
      else .error .outOfBounds := by
  induction rows generalizing table with
  | nil =>
    rfl
  | cons row rows ih =>
    rw [insertAll, foldlM_cons, HashTable.insert, if_pos hperfect]
    by_cases hrow : table.hashOf keys row < table.size
    · have hrow' : (table.hasher.hash keys.types (keys.bufferRow row)).toNat < table.size := hrow
      simp only [if_pos hrow', forall_mem_cons, hrow, true_and]
      exact @ih ⟨table.hasher, table.size,
        Function.update table.slots (table.hashOf keys row) (some row)⟩ hperfect
    · have hrow' : ¬ (table.hasher.hash keys.types (keys.bufferRow row)).toNat < table.size := hrow
      simp [if_neg hrow', Except.map, bind, Except.bind, hrow]

section Perfect

variable {andOrs : List AndOr} {table : HashTable} {left right : KeyTable} {rows : List Nat}
  (hhasher : IsHasherFor andOrs table.hasher) (hperfect : table.hasher.perfectHashing = true)
  (hsize : table.size = 2 ^ table.hasher.totalSignificantBits)
  (hleft : left.IsOver andOrs)

include hhasher hperfect hsize hleft

lemma hashOf_lt_iff {row : Nat} (hrow : row < left.numRows) :
    table.hashOf left row < table.size ↔ overflows andOrs (left.bufferRow row) = false := by
  have hle := perfectHashing_iff.1 hperfect
  rw [hashOf, hleft.types_eq, hsize]
  exact hhasher.toNat_lt_iff (by omega) (hleft.isRow row hrow)

lemma bufferRow_eq_iff (hR : right.IsOver andOrs) {l r : Nat} (hl : l < left.numRows)
    (hr : r < right.numRows) (hlt : table.hashOf left l < table.size) :
    table.hashOf left l = table.hashOf right r % table.size ↔
      left.bufferRow l = right.bufferRow r := by
  have hle := perfectHashing_iff.1 hperfect
  obtain ⟨fields, hencoding⟩ := hhasher.isEncoding (by omega)
  rw [← Nat.mod_eq_of_lt hlt, hashOf, hashOf, hleft.types_eq, hR.types_eq, hsize, ← agreeBelow_iff]
  constructor
  · exact hencoding.eq_of_agreeBelow (by omega) (hleft.isRow l hl) (hR.isRow r hr)
  · intro h
    rw [h]
    exact fun b _ => rfl

/-- A slot has the row whose bits are looked up. -/
lemma scatter_eq_find (hR : right.IsOver andOrs) (hrows : ∀ row ∈ rows, row < left.numRows)
    (hin : ∀ row ∈ rows, table.hashOf left row < table.size)
    (huniq : (rows.map left.bufferRow).Nodup) {r : Nat} (hr : r < right.numRows) :
    scatter (fun row => some (table.hashOf left row)) (fun _ row => some row)
        (fun _ => none) rows (table.hashOf right r % table.size) =
      KeyedSet.find left.bufferRow rows (right.bufferRow r) := by
  have hslot : ∀ l ∈ rows, some (table.hashOf left l) = some (table.hashOf right r % table.size) →
      left.bufferRow l = right.bufferRow r := fun l hl h =>
    (bufferRow_eq_iff hhasher hperfect hsize hleft hR (hrows l hl) hr (hin l hl)).1
      (Option.some.inj h)
  cases hfind : KeyedSet.find left.bufferRow rows (right.bufferRow r) with
  | some l =>
    obtain ⟨hl, heq⟩ := KeyedSet.mem_of_find hfind
    refine scatter_eq_of_mem hl (congrArg some ?_) fun l' hl' h => ?_
    · exact (bufferRow_eq_iff hhasher hperfect hsize hleft hR (hrows l hl) hr (hin l hl)).2 heq
    · exact congrArg some
        (inj_on_of_nodup_map huniq hl' hl ((hslot l' hl' h).trans heq.symm))
  | none =>
    have hemp : sentTo (fun row => some (table.hashOf left row))
        (table.hashOf right r % table.size) rows = [] := by
      rw [sentTo, filter_eq_nil_iff]
      intro l hl h
      have hmem : right.bufferRow r ∈ rows.map left.bufferRow :=
        mem_map.2 ⟨l, hl, hslot l hl (of_decide_eq_true h)⟩
      rw [← KeyedSet.find_isSome_iff, hfind] at hmem
      exact Bool.noConfusion hmem
    rw [scatter_apply, hemp]
    rfl

end Perfect

/-! ### Hash tables with probing -/

section Probing

variable {andOrs : List AndOr} {table : HashTable} {left right : KeyTable} {rows set : List Nat}

def HashTable.HoldsRows (table : HashTable) (left : KeyTable) (set : List Nat) : Prop :=
  LinearProbing.Holds table.size left.bufferRow
    (fun bits => (table.hasher.hash left.types bits).toNat) table.slots set

section

variable (hholds : table.HoldsRows left set) (hprobe : table.hasher.perfectHashing = false)
include hholds hprobe

/-- A row with bits that no other row has gets to a slot of its own without comparing it. -/
lemma insert_of_probing (hlen : set.length < table.size) {row : Nat}
    (hnd : ((set ++ [row]).map left.bufferRow).Nodup) :
    ∃ slots, table.insert false left row = .ok (some row, ⟨table.hasher, table.size, slots⟩) ∧
      HoldsRows ⟨table.hasher, table.size, slots⟩ left (set ++ [row]) := by
  rw [map_append, nodup_append] at hnd
  obtain ⟨hset, -, hdisj⟩ := hnd
  have hsize : 0 < table.size := Nat.zero_lt_of_lt hlen
  have hnew : left.bufferRow row ∉ set.map left.bufferRow :=
    fun hmem => hdisj _ hmem _ (by simp) rfl
  obtain ⟨y, slots, hinsert, hfind, hholds'⟩ := hholds.insert hset hlen row
  rw [KeyedSet.insert_of_not_mem hnew] at hfind hholds'
  have hy : y = row := by
    obtain ⟨hmem, hkey⟩ := KeyedSet.mem_of_find hfind
    rcases mem_append.1 hmem with hmem | hmem
    · exact absurd (hkey ▸ mem_map_of_mem hmem) hnew
    · exact mem_singleton.1 hmem
  subst hy
  have hsame : ∀ slot < table.size, ∀ y', table.slots slot = some y' →
      (false && equalRow left y left y') = decide (left.bufferRow y' = left.bufferRow y) := by
    intro slot hslot y' hy'
    have hmem : y' ∈ set := (hholds.mem_iff y').2 ⟨slot, hslot, hy'⟩
    rw [Bool.false_and, eq_comm, decide_eq_false_iff_not]
    exact fun heq => hnew (heq ▸ mem_map_of_mem hmem)
  refine ⟨slots, ?_, hholds'⟩
  rw [HashTable.insert, if_neg (by simp [hprobe])]
  dsimp only
  rw [LinearProbing.insert_congr hsize hsame y table.size (Nat.mod_lt _ hsize), hinsert]

lemma insertAll_of_probing (hlen : set.length + rows.length ≤ table.size)
    (hnd : ((set ++ rows).map left.bufferRow).Nodup) :
    ∃ slots, table.insertAll false left rows = .ok ⟨table.hasher, table.size, slots⟩ ∧
      HoldsRows ⟨table.hasher, table.size, slots⟩ left (set ++ rows) := by
  induction rows generalizing table set with
  | nil => exact ⟨table.slots, rfl, by simpa using hholds⟩
  | cons row rows ih =>
    rw [length_cons] at hlen
    have happ : set ++ row :: rows = (set ++ [row]) ++ rows := by simp
    rw [happ] at hnd ⊢
    have hfst : ((set ++ [row]).map left.bufferRow).Nodup := by
      rw [map_append] at hnd
      exact (nodup_append.1 hnd).1
    obtain ⟨slots, hinsert, hholds⟩ := insert_of_probing hholds hprobe (by omega) hfst
    obtain ⟨slots', hinsertAll, hholds⟩ := @ih ⟨table.hasher, table.size, slots⟩ (set ++ [row])
      hholds hprobe (by simp; omega) hnd
    refine ⟨slots', ?_, hholds⟩
    rw [insertAll, foldlM_cons, hinsert]
    exact hinsertAll

end

lemma readElements_inj (hnarrow : ∀ andOr ∈ andOrs, andOr.IsNarrow) {bits bits' : List (BitVec 64)}
    (hbits : IsRow andOrs bits) (hbits' : IsRow andOrs bits') :
    readElements (andOrs.map type) bits = readElements (andOrs.map type) bits' ↔ bits = bits' := by
  refine ⟨fun h => ?_, fun h => by rw [h]⟩
  induction hbits generalizing bits' with
  | nil =>
    cases hbits'
    rfl
  | @cons andOr x andOrs bits hx _ ih =>
    cases hbits' with
    | @cons _ y _ bits' hy hbits' =>
      obtain ⟨helement, helements⟩ := List.cons.inj h
      have hcol := hnarrow andOr mem_cons_self
      have hread := fun x => agreeBelow_read hcol.isKnown x
      have hxy : x = y := by
        refine AgreeBelow.eq (fun b hb => ?_) (hx.isBelow hcol.orValue)
          (hy.isBelow hcol.orValue)
        rw [← hread x b hb, ← hread y b hb, helement]
      rw [hxy, ih (fun a ha => hnarrow a (mem_cons_of_mem _ ha)) hbits' helements]

/-- A probe finds the row whose bits are looked up. -/
lemma startLookup_of_probing (hholds : table.HoldsRows left rows)
    (hprobe : table.hasher.perfectHashing = false) (hnarrow : ∀ andOr ∈ andOrs, andOr.IsNarrow)
    (hleft : left.IsOver andOrs) (hR : right.IsOver andOrs)
    (hrows : ∀ row ∈ rows, row < left.numRows) (hlen : rows.length < table.size)
    (huniq : (rows.map left.bufferRow).Nodup) {r : Nat} (hr : r < right.numRows) :
    table.startLookup right r left = KeyedSet.find left.bufferRow rows (right.bufferRow r) := by
  have hsize : 0 < table.size := Nat.zero_lt_of_lt hlen
  have hsame : ∀ slot < table.size, ∀ l, table.slots slot = some l →
      equalRow right r left l = decide (left.bufferRow l = right.bufferRow r) := by
    intro slot hslot l hl
    have hmem := hrows l ((hholds.mem_iff l).2 ⟨slot, hslot, hl⟩)
    rw [equalRow, decide_eq_decide, hleft.types_eq, hR.types_eq,
      readElements_inj hnarrow (hR.isRow r hr) (hleft.isRow l hmem)]
    exact eq_comm
  have hfind := hholds.find_eq huniq hlen (right.bufferRow r)
  rw [startLookup, if_neg (by simp [hprobe]),
    LinearProbing.find_congr hsize hsame table.size (Nat.mod_lt _ hsize), hR.types_eq,
    ← hleft.types_eq]
  exact hfind

end Probing

end Gqe.PerfectHash
