import Gqe.Lib.ListJoin
import Gqe.PerfectHash.Tables
import Mathlib.Data.Nat.Size

/-!
# Perfect joins

`libperfect/masked_join.cu`: the active rows on the left are put into a hash table that fits the
keys of both sides, and the active rows on the right are looked up in it. The join is an equijoin
unless a hash on the left lies beyond the end of the table.
-/

namespace Gqe.PerfectHash

open BitFields List KeyColumn ListJoin Bool BitVec Fallible

/-! ### The join -/

def combineColumns (insertNumel lookupNumel : Nat) (insertKeys lookupKeys : List KeyColumn) :
    List AndOr :=
  zipWith
    (fun insertColumn lookupColumn => (reduceAndOr insertColumn insertNumel).combine
      (reduceAndOr lookupColumn lookupNumel))
    insertKeys lookupKeys

def combinedAndOrs (left right : KeyTable) : List AndOr :=
  combineColumns left.numRows right.numRows left.columns right.columns

/-- `masked_join` with unique keys on the left, given the active rows of both sides in the order in
which the threads come to them. -/
def maskedJoin (left right : KeyTable) (leftRows rightRows : List Nat) :
    Except Failure (List (Nat × Nat)) := do
  let table ← makeHashTable left.numRows (combinedAndOrs left right)
  let table ← table.insertAll false left leftRows
  return rightRows.filterMap fun r => (table.startLookup right r left).map (·, r)

/-- The rows that a mask keeps; no mask keeps them all. -/
def activeRows (mask : Option (Nat → Bool)) (numRows : Nat) : List Nat :=
  (range numRows).filter fun row => mask.all (· row)

def perfectJoin (schedule : List Nat → List Nat) (left right : KeyTable)
    (leftMask rightMask : Option (Nat → Bool)) : Except Failure (List (Nat × Nat)) :=
  if right.numRows = 0 ∨ left.numRows = 0 then .ok []
  else if left.columns.any (·.hasNulls left.numRows) then
    .error (.logicError "Perfect hashing requires that both sides have no nulls")
  else if right.columns.any (·.hasNulls right.numRows) then
    .error (.logicError "Perfect hashing requires that both sides have no nulls")
  else
    maskedJoin left right (schedule (activeRows leftMask left.numRows))
      (schedule (activeRows rightMask right.numRows))

/-! ### The bits of the elements -/

lemma isBelow_load (memory : Nat → UInt8) (address size : Nat) :
    IsBelow (8 * size) (load memory address size) := by
  rw [isBelow_iff]
  have hlt := LittleEndian.natOfBytes_lt ((range size).map fun i => memory (address + i))
  rw [length_map, length_range] at hlt
  refine Nat.lt_of_le_of_lt (Nat.mod_le _ _) (Nat.lt_of_lt_of_eq hlt ?_)
  exact (pow_mul 2 8 size).symm

lemma isBelow_bufferElement (column : KeyColumn) (row : Nat) :
    IsBelow (elementBits column.type) (column.bufferElement row) :=
  isBelow_load _ _ _

lemma getLsbD_foldl_or (init : BitVec 64) (xs : List (BitVec 64)) (b : Nat) :
    (xs.foldl (· ||| ·) init).getLsbD b = (init.getLsbD b || xs.any (·.getLsbD b)) := by
  induction xs generalizing init with
  | nil => simp
  | cons x xs ih => rw [foldl_cons, ih, getLsbD_or, any_cons, Bool.or_assoc]

lemma getLsbD_foldl_and (init : BitVec 64) (xs : List (BitVec 64)) (b : Nat) :
    (xs.foldl (· &&& ·) init).getLsbD b = (init.getLsbD b && xs.all (·.getLsbD b)) := by
  induction xs generalizing init with
  | nil => simp
  | cons x xs ih => rw [foldl_cons, ih, getLsbD_and, all_cons, Bool.and_assoc]

section Columns

variable {column column' : KeyColumn} {numRows numRows' row : Nat}

lemma isBetween_reduceAndOr (hrow : row < numRows) :
    (reduceAndOr column numRows).IsBetween (column.bufferElement row) := by
  have hmem : column.bufferElement row ∈ (range numRows).map column.bufferElement :=
    mem_map_of_mem (mem_range.2 hrow)
  refine ⟨fun b hb => ?_, fun b hb => ?_⟩
  · rw [reduceAndOr, getLsbD_foldl_and, and_eq_true, all_eq_true] at hb
    exact hb.2 _ hmem
  · rw [reduceAndOr, getLsbD_foldl_or, or_eq_true, any_eq_true]
    exact .inr ⟨_, hmem, hb⟩

lemma isNarrow_reduceAndOr (h : isKnown column.type) : (reduceAndOr column numRows).IsNarrow where
  isKnown := h
  andValue b hb := by
    rw [reduceAndOr, getLsbD_foldl_and]
    have hinit : ((allOnes (8 * elementSize column.type)).setWidth 64).getLsbD b = false := by
      have hb : ¬ b < 8 * elementSize column.type := Nat.not_lt.2 hb
      simp [hb]
    rw [hinit, Bool.false_and]
  orValue b hb := by
    rw [reduceAndOr, getLsbD_foldl_or, any_eq_false.2]
    · simp
    · intro x hx
      obtain ⟨row, -, rfl⟩ := mem_map.1 hx
      simp [isBelow_bufferElement column row b hb]

end Columns

namespace AndOr

variable {insert lookup : AndOr} {bits : BitVec 64}

lemma IsBetween.combine (h : insert.IsBetween bits) : (insert.combine lookup).IsBetween bits where
  of_and b hb := by
    rw [AndOr.combine, getLsbD_and, Bool.and_eq_true] at hb
    exact h.of_and b hb.1
  to_or b hb := by
    rw [AndOr.combine, getLsbD_or, h.to_or b hb, Bool.true_or]

lemma IsNarrow.combine (h : insert.IsNarrow) (h' : lookup.IsNarrow)
    (htype : insert.type = lookup.type) : (insert.combine lookup).IsNarrow where
  isKnown := h.isKnown
  andValue b hb := by rw [AndOr.combine, getLsbD_and, h.andValue b hb, Bool.false_and]
  orValue b hb := by
    rw [AndOr.combine, getLsbD_or, h.orValue b hb, h'.orValue b (htype ▸ hb), Bool.or_false]

end AndOr

section Tables

variable {columns columns' : List KeyColumn} {n k row : Nat}
  (h : List.Forall₂ (fun column column' : KeyColumn => column.type = column'.type) columns columns')

include h

lemma map_type_combine :
    (combineColumns n k columns columns').map AndOr.type = columns.map type := by
  induction h with
  | nil => rfl
  | cons _ _ ih => exact congrArg _ ih

lemma isRow_combine (hrow : row < n) :
    IsRow (combineColumns n k columns columns') (columns.map (bufferElement · row)) := by
  induction h with
  | nil => exact .nil
  | cons _ _ ih => exact .cons (isBetween_reduceAndOr hrow).combine ih

lemma combineColumns_comm :
    combineColumns n k columns columns' = combineColumns k n columns' columns := by
  induction h with
  | nil => rfl
  | cons htype _ ih =>
    refine congrArg₂ _ ?_ ih
    simp [AndOr.combine, reduceAndOr, htype, BitVec.and_comm, BitVec.or_comm]

lemma isNarrow_combine (hknown : ∀ column ∈ columns, isKnown column.type) :
    ∀ andOr ∈ combineColumns n k columns columns', andOr.IsNarrow := by
  induction h with
  | nil => simp [combineColumns]
  | cons htype _ ih =>
    obtain ⟨hcol, hcols⟩ := forall_mem_cons.1 hknown
    refine forall_mem_cons.2 ⟨?_, ih hcols⟩
    exact (isNarrow_reduceAndOr hcol).combine (isNarrow_reduceAndOr (htype ▸ hcol)) htype

end Tables

/-- Tables of keys of the same types, which the buffer pointers know. -/
structure AreKeys (left right : KeyTable) : Prop where
  types_eq : left.types = right.types
  isKnown : ∀ type ∈ left.types, isKnown type

namespace AreKeys

variable {left right : KeyTable} (h : AreKeys left right)

include h

lemma columns : List.Forall₂ (fun column column' : KeyColumn => column.type = column'.type)
    left.columns right.columns := by
  have hmap : List.Forall₂ Eq (left.columns.map type) (right.columns.map type) :=
    forall₂_eq_eq_eq ▸ h.types_eq
  exact forall₂_map_left_iff.1 (forall₂_map_right_iff.1 hmap)

lemma symm : AreKeys right left := ⟨h.types_eq.symm, h.types_eq ▸ h.isKnown⟩

lemma comm : combinedAndOrs left right = combinedAndOrs right left :=
  combineColumns_comm h.columns

lemma isOver_left : left.IsOver (combinedAndOrs left right) :=
  ⟨(map_type_combine h.columns).symm, fun _ => isRow_combine h.columns⟩

lemma isOver_right : right.IsOver (combinedAndOrs left right) := h.comm ▸ h.symm.isOver_left

lemma isNarrow : ∀ andOr ∈ combinedAndOrs left right, andOr.IsNarrow :=
  isNarrow_combine h.columns fun _ hcol => h.isKnown _ (mem_map_of_mem hcol)

end AreKeys

/-! ### The table of a join -/

lemma lt_of_primes : ∀ k < 63, ∃ prime, primes[k]? = some prime ∧ 2 ^ k < prime := by
  have hall : ∀ k < 63, ∃ h : k < primes.length, 2 ^ k < primes[k] := by decide +kernel
  intro k hk
  obtain ⟨h, hlt⟩ := hall k hk
  exact ⟨_, getElem?_eq_getElem h, hlt⟩

/-- A table without perfect hashing has more slots than keys. -/
lemma exists_nextprimePow2 {keysNumel : Nat} (h : keysNumel < 2 ^ 31) :
    ∃ size, nextprimePow2 (64 - (BitVec.ofNat 64 keysNumel).clz.toNat + 2) = .ok size ∧
      keysNumel < size := by
  set bits := 64 - (BitVec.ofNat 64 keysNumel).clz.toNat with hbits
  have hnat : (BitVec.ofNat 64 keysNumel).toNat = keysNumel := by
    exact Nat.mod_eq_of_lt (by omega)
  have hle : bits ≤ 31 := (sub_clz_le_iff (by omega)).2 (isBelow_iff.2 (hnat.symm ▸ h))
  have hlt : keysNumel < 2 ^ bits :=
    hnat ▸ isBelow_iff.1 ((sub_clz_le_iff (by omega)).1 (Nat.le_refl _))
  obtain ⟨prime, hprime, hpow⟩ := lt_of_primes (bits + 2) (by omega)
  refine ⟨prime, by rw [nextprimePow2, hprime], ?_⟩
  have hmono : 2 ^ bits ≤ 2 ^ (bits + 2) := Nat.pow_le_pow_right Nat.two_pos (by omega)
  omega

/-- The table for hashes that have a slot each, when it is still empty. -/
def perfectTable (hasher : Hasher) : HashTable where
  hasher := hasher
  size := 2 ^ hasher.totalSignificantBits
  slots _ := none

section

variable {andOrs : List AndOr} {hasher : Hasher} (hmake : makeHasher andOrs = .ok hasher)

include hmake

lemma makeHashTable_of_perfect (h : hasher.perfectHashing = true) (keysNumel : Nat) :
    makeHashTable keysNumel andOrs = .ok (perfectTable hasher) := by
  have hpos : 0 < 2 ^ hasher.totalSignificantBits := Nat.two_pow_pos _
  rw [makeHashTable, hmake, ok_bind, Hasher.hashTableSize, if_pos h, Hasher.max,
    Nat.sub_add_cancel hpos]
  rfl

lemma makeHashTable_of_probing (h : hasher.perfectHashing = false) {keysNumel : Nat}
    (hlt : keysNumel < 2 ^ 31) : ∃ size, keysNumel < size ∧
      makeHashTable keysNumel andOrs = .ok ⟨hasher, size, fun _ => none⟩ := by
  obtain ⟨size, hsz, hlt⟩ := exists_nextprimePow2 hlt
  refine ⟨size, hlt, ?_⟩
  rw [makeHashTable, hmake, ok_bind, Hasher.hashTableSize, if_neg (eq_false_iff.1 h), hsz]
  rfl

end

section MaskedJoin

variable {left right : KeyTable} {leftRows rightRows : List Nat}

/-- A table that holds the rows on the left gives the pairs of rows with equal bits. -/
lemma filterMap_startLookup_perm {table : HashTable}
    (hrrows : ∀ row ∈ rightRows, row < right.numRows) (huniq : (leftRows.map left.bufferRow).Nodup)
    (hlook : ∀ r < right.numRows, table.startLookup right r left =
      KeyedSet.find left.bufferRow leftRows (right.bufferRow r)) :
    (rightRows.filterMap fun r => (table.startLookup right r left).map (·, r)).Perm
      (ListJoin.inner (fun l r => decide (left.bufferRow l = right.bufferRow r)) leftRows
        rightRows) := by
  have hcongr : (rightRows.filterMap fun r => (table.startLookup right r left).map (·, r)) =
      rightRows.filterMap fun r =>
        (leftRows.find? fun l => decide (left.bufferRow l = right.bufferRow r)).map (·, r) := by
    apply filterMap_congr
    intro r hr
    rw [hlook r (hrrows r hr)]
    rfl
  rw [hcongr]
  refine filterMap_find?_perm_inner (List.Nodup.of_map _ huniq) ?_
  intro r _ l hl l' hl' h h'
  exact inj_on_of_nodup_map huniq hl hl'
    ((of_decide_eq_true h).trans (of_decide_eq_true h').symm)

variable {hasher : Hasher} (hmake : makeHasher (combinedAndOrs left right) = .ok hasher)
  (hhasher : IsHasherFor (combinedAndOrs left right) hasher) (hkeys : AreKeys left right)
  (hleftRows : ∀ row ∈ leftRows, row < left.numRows)

include hmake hhasher hkeys hleftRows

/-- A row whose hash goes beyond the bits that count is written beyond the end of the table. -/
lemma maskedJoin_of_overflows {row : Nat} (hrow : row ∈ leftRows)
    (hovf : overflows (combinedAndOrs left right) (left.bufferRow row) = true) :
    maskedJoin left right leftRows rightRows = .error .outOfBounds := by
  have hle := hhasher.le_of_overflows _ hovf
  have hperf : (perfectTable hasher).hasher.perfectHashing = true :=
    perfectHashing_iff.2 (Nat.le_trans hle (by omega))
  have hnot : ¬ ∀ row ∈ leftRows,
      (perfectTable hasher).hashOf left row < (perfectTable hasher).size := by
    intro hall
    have hfalse := (hashOf_lt_iff hhasher hperf rfl hkeys.isOver_left (hleftRows row hrow)).1
      (hall row hrow)
    rw [hovf] at hfalse
    exact Bool.noConfusion hfalse
  rw [maskedJoin, makeHashTable_of_perfect hmake hperf, ok_bind, insertAll_of_perfect hperf,
    if_neg hnot]
  rfl

omit hmake hhasher hkeys in
lemma length_le_of_nodup (huniq : (leftRows.map left.bufferRow).Nodup) :
    leftRows.length ≤ left.numRows := by
  have hsub : leftRows ⊆ range left.numRows :=
    fun row hrow => mem_range.2 (hleftRows row hrow)
  have hle := (subperm_of_subset (List.Nodup.of_map _ huniq) hsub).length_le
  rwa [length_range] at hle

/-- Without such a row the join gives the pairs of rows with equal bits. -/
lemma maskedJoin_of_not_overflows (hrrows : ∀ row ∈ rightRows, row < right.numRows)
    (huniq : (leftRows.map left.bufferRow).Nodup)
    (hin : ∀ row ∈ leftRows, overflows (combinedAndOrs left right) (left.bufferRow row) = false) :
    ∃ pairs, maskedJoin left right leftRows rightRows = .ok pairs ∧
      pairs.Perm (ListJoin.inner (fun l r => decide (left.bufferRow l = right.bufferRow r)) leftRows
        rightRows) := by
  rw [maskedJoin]
  cases hperf : (perfectTable hasher).hasher.perfectHashing with
  | true =>
    have hlt : ∀ row ∈ leftRows, (perfectTable hasher).hashOf left row <
        (perfectTable hasher).size := fun row hrow =>
      (hashOf_lt_iff hhasher hperf rfl hkeys.isOver_left (hleftRows row hrow)).2 (hin row hrow)
    rw [makeHashTable_of_perfect hmake hperf, ok_bind, insertAll_of_perfect hperf, if_pos hlt]
    refine ⟨_, rfl, filterMap_startLookup_perm hrrows huniq fun r hr => ?_⟩
    rw [HashTable.startLookup, if_pos hperf]
    exact scatter_eq_find hhasher hperf rfl hkeys.isOver_left hkeys.isOver_right hleftRows hlt
      huniq hr
  | false =>
    obtain ⟨size, hlt, htab⟩ := makeHashTable_of_probing hmake hperf left.numRows_lt
    have hlen := length_le_of_nodup hleftRows huniq
    have hholds : HashTable.HoldsRows ⟨hasher, size, fun _ => none⟩ left [] :=
      ⟨by simp, by simp, by simp⟩
    obtain ⟨slots, hinsert, hholds⟩ := insertAll_of_probing hholds hperf
      (by simp only [length_nil]; omega) huniq
    rw [nil_append] at hholds
    rw [htab, ok_bind, hinsert]
    exact ⟨_, rfl, filterMap_startLookup_perm hrrows huniq fun r hr =>
      startLookup_of_probing hholds hperf hkeys.isNarrow hkeys.isOver_left hkeys.isOver_right
        hleftRows (by simp only; omega) huniq hr⟩

end MaskedJoin

/-! ### Keys within the range of the table -/

/-- The rows are hashed within the range of a hasher. -/
def KeyTable.HashesInRange (keys : KeyTable) (hasher : Hasher) : Prop :=
  ∀ row < keys.numRows, (hasher.hash keys.types (keys.bufferRow row)).toNat ≤ hasher.max

/-- The elements that the buffer pointers of the two sides of a column have. -/
def elementsOf (n k : Nat) (column column' : KeyColumn) : List (BitVec 64) :=
  (range n).map column.bufferElement ++ (range k).map column'.bufferElement

/-- The bits of the largest element. -/
def usedBits (elements : List (BitVec 64)) : Nat :=
  (elements.map fun element => element.toNat.size).foldr max 0

def totalUsedBits (n k : Nat) (columns columns' : List KeyColumn) : Nat :=
  (zipWith (fun column column' => usedBits (elementsOf n k column column')) columns
    columns').sum

/-- Two columns of single bytes, the second without a highest bit. -/
def isPairOfBytes (n k : Nat) : List KeyColumn → List KeyColumn → Bool
  | [column0, column1], [_, column1'] => elementSize column0.type = 1 &&
      elementSize column1.type = 1 && (elementsOf n k column1 column1').all (·.toNat < 128)
  | _, _ => false

def numNegative (types : List DataType) (bits : List (BitVec 64)) : Nat :=
  (zipWith isNegative types bits).count true

/-- What a row on the left has to be like, unless the elements use more than 20 bits together. -/
def isInRange (left right : KeyTable) (row : Nat) : Bool :=
  if isPairOfBytes left.numRows right.numRows left.columns right.columns then
    ((left.bufferRow row).headD 0).toNat < 128
  else 20 < totalUsedBits left.numRows right.numRows left.columns right.columns ||
    numNegative left.types (left.bufferRow row) % 2 = 0

def zeroColumns (n k : Nat) (columns columns' : List KeyColumn) : List Bool :=
  zipWith (fun column column' => (elementsOf n k column column').all (· = 0#64)) columns columns'

/-- A column has only zeros on both sides; of two columns of single bytes, the second one. -/
def hasZeroColumn (left right : KeyTable) : Bool :=
  let zeros := zeroColumns left.numRows right.numRows left.columns right.columns
  if isPairOfBytes left.numRows right.numRows left.columns right.columns then zeros.tail.any id
  else zeros.any id

lemma usedBits_le_iff {elements : List (BitVec 64)} {n : Nat} :
    usedBits elements ≤ n ↔ ∀ x ∈ elements, IsBelow n x := by
  induction elements with
  | nil => simp [usedBits]
  | cons x elements ih =>
    have hcons : usedBits (x :: elements) = max x.toNat.size (usedBits elements) := rfl
    rw [hcons, Nat.max_le, ih, Nat.size_le, ← isBelow_iff, forall_mem_cons]

lemma isOddNegative_eq (types : List DataType) (bits : List (BitVec 64)) :
    isOddNegative types bits = decide (numNegative types bits % 2 = 1) := by
  rw [isOddNegative, numNegative]
  induction zipWith isNegative types bits with
  | nil => rfl
  | cons sign signs ih =>
    rw [foldr_cons, ih]
    cases sign with
    | false => simp
    | true =>
      rw [count_cons_self, true_xor, ← decide_not, decide_eq_decide]
      omega

lemma getLsbD_seven_eq {x : BitVec 64} (h : IsBelow 8 x) :
    x.getLsbD 7 = !decide (x.toNat < 128) := by
  have hbelow : IsBelow 7 x ↔ x.getLsbD 7 = false := by
    refine ⟨fun hx => hx 7 (Nat.le_refl 7), fun hbit b hb => ?_⟩
    rcases Nat.lt_or_eq_of_le hb with hb | rfl
    · exact h b hb
    · exact hbit
  have hlt : x.toNat < 128 ↔ x.getLsbD 7 = false := isBelow_iff.symm.trans hbelow
  simp only [hlt]
  cases x.getLsbD 7 <;> rfl

section InUse

variable {column column' : KeyColumn} {n k : Nat}

lemma getLsbD_orValue (b : Nat) :
    ((reduceAndOr column n).combine (reduceAndOr column' k)).orValue.getLsbD b =
      (elementsOf n k column column').any (·.getLsbD b) := by
  rw [AndOr.combine, reduceAndOr, reduceAndOr, getLsbD_or, getLsbD_foldl_or, getLsbD_foldl_or,
    elementsOf]
  simp

lemma isBelow_orValue_iff {b : Nat} :
    IsBelow b ((reduceAndOr column n).combine (reduceAndOr column' k)).orValue ↔
      ∀ x ∈ elementsOf n k column column', IsBelow b x := by
  simp only [IsBelow, getLsbD_orValue, any_eq_false, not_eq_true]
  exact ⟨fun hall x hx c hc => hall c hc x hx, fun hall c hc x hx => hall x hx c hc⟩

lemma isBelow_zero_iff {x : BitVec 64} : IsBelow 0 x ↔ x = 0#64 := by
  rw [isBelow_iff, pow_zero, Nat.lt_one_iff, BitVec.toNat_eq]
  rfl

lemma orValue_eq_zero_iff :
    ((reduceAndOr column n).combine (reduceAndOr column' k)).orValue = 0#64 ↔
      ∀ x ∈ elementsOf n k column column', x = 0#64 := by
  simp only [← isBelow_zero_iff, isBelow_orValue_iff]

/-- The bits that are counted for a column are those of its largest element. -/
lemma significantField_fst :
    (significantField ((reduceAndOr column n).combine (reduceAndOr column' k))).1 =
      usedBits (elementsOf n k column column') := by
  have hiff : ∀ b,
      (significantField ((reduceAndOr column n).combine (reduceAndOr column' k))).1 ≤ b ↔
      usedBits (elementsOf n k column column') ≤ b := fun b =>
    (sub_clz_le_iff (by omega)).trans (isBelow_orValue_iff.trans usedBits_le_iff.symm)
  exact Nat.le_antisymm ((hiff _).2 (Nat.le_refl _)) ((hiff _).1 (Nat.le_refl _))

lemma getLsbD_seven_eq_false_iff (hsz : elementSize column.type = 1)
    (hsz' : elementSize column'.type = 1) :
    ((reduceAndOr column n).combine (reduceAndOr column' k)).orValue.getLsbD 7 = false ↔
      (elementsOf n k column column').all (·.toNat < 128) = true := by
  rw [getLsbD_orValue, any_eq_false, all_eq_true]
  refine forall_congr' fun x => imp_congr_right fun hx => ?_
  have hbelow : IsBelow 8 x := by
    rcases mem_append.1 hx with hx | hx
    · obtain ⟨row, -, rfl⟩ := mem_map.1 hx
      simpa [hsz] using isBelow_bufferElement column row
    · obtain ⟨row, -, rfl⟩ := mem_map.1 hx
      simpa [hsz'] using isBelow_bufferElement column' row
  rw [getLsbD_seven_eq hbelow, not_eq_true, not_eq_false']

lemma hasZero_combine (columns columns' : List KeyColumn) :
    hasZero (combineColumns n k columns columns') = (zeroColumns n k columns columns').any id := by
  induction columns generalizing columns' with
  | nil => rfl
  | cons column columns ih =>
    cases columns' with
    | nil => rfl
    | cons column' columns' =>
      refine congrArg₂ (· || ·) ?_ (ih columns')
      rw [Bool.eq_iff_iff, decide_eq_true_iff, orValue_eq_zero_iff, id, all_eq_true]
      simp

end InUse

section

variable {columns columns' : List KeyColumn} {n k : Nat}
  (h : List.Forall₂ (fun column column' : KeyColumn => column.type = column'.type) columns columns')

include h

lemma significantBits_combine :
    significantBits (combineColumns n k columns columns') = totalUsedBits n k columns columns' := by
  induction h with
  | nil => rfl
  | cons _ _ ih => exact congrArg₂ (· + ·) significantField_fst ih

lemma isBytePair_combine :
    isBytePair (combineColumns n k columns columns') = isPairOfBytes n k columns columns' := by
  match columns, columns', h with
  | [], _, .nil => rfl
  | [_], _, .cons _ .nil => rfl
  | [column0, column1], _, .cons _ (.cons (b := column1') htype .nil) =>
    rw [Bool.eq_iff_iff]
    simp only [combineColumns, zipWith_cons_cons, zipWith_nil_left, isBytePair,
      isPairOfBytes, Bool.and_eq_true, decide_eq_true_iff]
    refine and_congr_right fun hsizes => ?_
    rw [Bool.not_eq_true']
    exact getLsbD_seven_eq_false_iff hsizes.2 (htype ▸ hsizes.2)
  | _ :: _ :: _ :: _, _, .cons _ (.cons _ (.cons _ _)) => rfl

end

variable {keys : KeyTable}

lemma isBelow_headD_of_isPairOfBytes {columns : List KeyColumn} {n k : Nat}
    (h : isPairOfBytes n k keys.columns columns = true) (row : Nat) :
    IsBelow 8 ((keys.bufferRow row).headD 0) := by
  unfold isPairOfBytes at h
  split at h
  case h_1 column0 _ _ _ hcols =>
    simp only [Bool.and_eq_true, decide_eq_true_iff] at h
    have hhead : (keys.bufferRow row).headD 0 = column0.bufferElement row := by
      simp [KeyTable.bufferRow, hcols]
    rw [hhead, bufferElement, h.1.1]
    exact isBelow_load _ _ 1
  case h_2 => exact Bool.noConfusion h

namespace AreKeys

variable {left right : KeyTable} (h : AreKeys left right)

include h

/-- The rows with hashes beyond the end of the table. -/
lemma overflows_eq (row : Nat) :
    overflows (combinedAndOrs left right) (left.bufferRow row) = !isInRange left right row := by
  rw [overflows, isInRange, combinedAndOrs, isBytePair_combine h.columns,
    significantBits_combine h.columns, map_type_combine h.columns, isOddNegative_eq]
  split_ifs with hpair
  · exact getLsbD_seven_eq (isBelow_headD_of_isPairOfBytes hpair row)
  · rw [Bool.not_or, ← decide_not, ← decide_not, KeyTable.types]
    congr 1
    · rw [decide_eq_decide]
      omega
    · rw [decide_eq_decide]
      omega

lemma countsZero_eq : countsZero (combinedAndOrs left right) = hasZeroColumn left right := by
  have htail : (combinedAndOrs left right).tail =
      combineColumns left.numRows right.numRows left.columns.tail right.columns.tail := by
    simp [combinedAndOrs, combineColumns]
  have htail' : (zeroColumns left.numRows right.numRows left.columns right.columns).tail =
      zeroColumns left.numRows right.numRows left.columns.tail right.columns.tail := by
    simp [zeroColumns]
  rw [countsZero, hasZeroColumn, htail, hasZero_combine, htail', combinedAndOrs,
    isBytePair_combine h.columns, hasZero_combine]

/-- A hasher is chosen unless a column has only zeros. -/
lemma exists_makeHasher (hzero : hasZeroColumn left right = false) :
    ∃ hasher, makeHasher (combinedAndOrs left right) = .ok hasher ∧
      IsHasherFor (combinedAndOrs left right) hasher := by
  have hchooses := chooses_makeHasher h.isNarrow
  rwa [Chooses, h.countsZero_eq, hzero, if_neg Bool.false_ne_true] at hchooses

lemma makeHasher_eq_error (hzero : hasZeroColumn left right = true) :
    makeHasher (combinedAndOrs left right) = .error .undefined := by
  have hchooses := chooses_makeHasher h.isNarrow
  rwa [Chooses, h.countsZero_eq, hzero, if_pos rfl] at hchooses

lemma hashesInRange_left_iff {hasher : Hasher}
    (hhasher : IsHasherFor (combinedAndOrs left right) hasher) (hperfect : hasher.isPerfect) :
    left.HashesInRange hasher ↔ ∀ row < left.numRows, isInRange left right row = true := by
  refine forall₂_congr fun row hrow => ?_
  rw [Hasher.max, Nat.le_sub_one_iff_lt (Nat.two_pow_pos _), h.isOver_left.types_eq,
    hhasher.toNat_lt_iff (of_decide_eq_true hperfect) (h.isOver_left.isRow row hrow),
    h.overflows_eq, Bool.not_eq_false']

/-- A hasher with too many bits to be perfect is not one that rows overflow. -/
lemma isInRange_of_not_isPerfect {hasher : Hasher}
    (hhasher : IsHasherFor (combinedAndOrs left right) hasher) (hperfect : ¬ hasher.isPerfect)
    (row : Nat) : isInRange left right row = true := by
  by_contra hrange
  have hovf := h.overflows_eq row
  rw [eq_false_iff.2 hrange] at hovf
  have hle := hhasher.le_of_overflows _ hovf
  exact hperfect (decide_eq_true (by omega))

end AreKeys

/-! ### The equijoin -/

/-- The integers of 8 to 64 bits. -/
def isInteger : DataType → Bool
  | .int8 | .int16 | .int32 | .int64 | .uint8 | .uint16 | .uint32 | .uint64 => true
  | _ => false

lemma isKnown_of_isInteger {type : DataType} (h : isInteger type) : isKnown type := by
  cases type <;> simp_all [isInteger, isKnown]

/-- A hasher is chosen, and if it claims to be perfect has the hashes of both sides in its range, if
and only if no leading zeros of a zero are counted and no row is hashed beyond the range. -/
theorem hashesInRange_iff (left right : KeyTable) (htypes : left.types = right.types)
    (hinteger : ∀ type ∈ left.types, isInteger type) :
    (∃ hasher, makeHasher (combinedAndOrs left right) = .ok hasher ∧
      (hasher.isPerfect → left.HashesInRange hasher ∧ right.HashesInRange hasher)) ↔
      hasZeroColumn left right = false ∧ (∀ row < left.numRows, isInRange left right row = true) ∧
        ∀ row < right.numRows, isInRange right left row = true := by
  have hkeys : AreKeys left right := ⟨htypes, fun type h => isKnown_of_isInteger (hinteger type h)⟩
  cases hzero : hasZeroColumn left right with
  | true => simp [hkeys.makeHasher_eq_error hzero]
  | false =>
    obtain ⟨hasher, hmake, hhasher⟩ := hkeys.exists_makeHasher hzero
    have hhasher' : IsHasherFor (combinedAndOrs right left) hasher := hkeys.comm ▸ hhasher
    rw [and_iff_right rfl]
    simp only [hmake, Except.ok.injEq, exists_eq_left']
    by_cases hperfect : hasher.isPerfect
    · rw [hkeys.hashesInRange_left_iff hhasher hperfect,
        hkeys.symm.hashesInRange_left_iff hhasher' hperfect]
      exact ⟨fun h => h hperfect, fun h _ => h⟩
    · refine iff_of_true (absurd · hperfect) ⟨fun row _ => ?_, fun row _ => ?_⟩
      · exact hkeys.isInRange_of_not_isPerfect hhasher hperfect row
      · exact hkeys.symm.isInRange_of_not_isPerfect hhasher' hperfect row

/-- A column starts where its buffer pointer points. -/
def KeyColumn.isAligned (column : KeyColumn) : Prop :=
  column.offset = 0 ∨ elementSize column.type = 4

def KeyTable.IsAligned (keys : KeyTable) : Prop := ∀ column ∈ keys.columns, column.isAligned

/-- The values of a row: the bits of its elements. -/
def KeyTable.row (keys : KeyTable) (row : Nat) : List (BitVec 64) :=
  keys.columns.map (element · row)

lemma bufferElement_eq {column : KeyColumn} (h : column.isAligned) (row : Nat) :
    column.bufferElement row = column.element row := by
  rw [bufferElement, element]
  rcases h with h | h
  · rw [h, Nat.zero_add, Nat.zero_add]
  · rw [h, Nat.add_mul, Nat.mul_comm 4]

lemma KeyTable.IsAligned.bufferRow_eq (h : keys.IsAligned) : keys.bufferRow = keys.row :=
  funext fun row => map_congr_left fun column hcol => bufferElement_eq (h column hcol) row

/-- The pairs of active rows with equal keys. -/
def equalKeys (left right : KeyTable) (leftMask rightMask : Option (Nat → Bool)) :
    List (Nat × Nat) :=
  ListJoin.inner (fun l r => decide (left.row l = right.row r)) (activeRows leftMask left.numRows)
    (activeRows rightMask right.numRows)

variable {mask : Option (Nat → Bool)}

lemma lt_of_mem_activeRows {numRows row : Nat} (h : row ∈ activeRows mask numRows) :
    row < numRows :=
  mem_range.1 (mem_of_mem_filter h)

/-- Keys without NULLs at which the buffer pointers of their columns point. -/
structure AreAlignedKeys (left right : KeyTable) : Prop extends AreKeys left right where
  leftNulls : ∀ column ∈ left.columns, column.hasNulls left.numRows = false
  rightNulls : ∀ column ∈ right.columns, column.hasNulls right.numRows = false
  leftAligned : left.IsAligned
  rightAligned : right.IsAligned

lemma not_any_hasNulls (h : ∀ column ∈ keys.columns, column.hasNulls keys.numRows = false) :
    ¬ keys.columns.any (·.hasNulls keys.numRows) = true := by
  intro hany
  obtain ⟨column, hcol, hnull⟩ := any_eq_true.1 hany
  rw [h column hcol] at hnull
  exact Bool.noConfusion hnull

/-- The perfect join returns the pairs of active rows with equal keys, each once. -/
def IsEquijoin (schedule : List Nat → List Nat) (left right : KeyTable)
    (leftMask rightMask : Option (Nat → Bool)) : Prop :=
  ∃ pairs, perfectJoin schedule left right leftMask rightMask = .ok pairs ∧
    pairs.Perm (equalKeys left right leftMask rightMask)

section PerfectJoin

variable {schedule : List Nat → List Nat} (hschedule : ∀ rows, (schedule rows).Perm rows)
  {left right : KeyTable} {leftMask rightMask : Option (Nat → Bool)}

lemma isEquijoin_of_empty (hemp : right.numRows = 0 ∨ left.numRows = 0) :
    IsEquijoin schedule left right leftMask rightMask := by
  have hequal : equalKeys left right leftMask rightMask = [] := by
    rw [equalKeys]
    rcases hemp with h | h <;> simp [h, activeRows, ListJoin.inner]
  exact ⟨[], if_pos hemp, .of_eq hequal.symm⟩

lemma perfectJoin_of_nonempty (hkeys : AreAlignedKeys left right)
    (hemp : ¬ (right.numRows = 0 ∨ left.numRows = 0)) :
    perfectJoin schedule left right leftMask rightMask =
      maskedJoin left right (schedule (activeRows leftMask left.numRows))
        (schedule (activeRows rightMask right.numRows)) := by
  rw [perfectJoin, if_neg hemp, if_neg (not_any_hasNulls hkeys.leftNulls),
    if_neg (not_any_hasNulls hkeys.rightNulls)]

include hschedule in
lemma lt_of_mem_schedule {numRows row : Nat} (h : row ∈ schedule (activeRows mask numRows)) :
    row < numRows :=
  lt_of_mem_activeRows ((hschedule _).mem_iff.1 h)

variable (hkeys : AreAlignedKeys left right) (hemp : ¬ (right.numRows = 0 ∨ left.numRows = 0))

include hkeys hemp

lemma perfectJoin_of_hasZeroColumn (hzero : hasZeroColumn left right = true) :
    perfectJoin schedule left right leftMask rightMask = .error .undefined := by
  rw [perfectJoin_of_nonempty hkeys hemp, maskedJoin, makeHashTable,
    hkeys.makeHasher_eq_error hzero]
  rfl

include hschedule

lemma isEquijoin_of_isInRange (hzero : hasZeroColumn left right = false)
    (huniq : ((activeRows leftMask left.numRows).map left.row).Nodup)
    (hrange : ∀ row ∈ activeRows leftMask left.numRows, isInRange left right row = true) :
    IsEquijoin schedule left right leftMask rightMask := by
  obtain ⟨hasher, hmake, hhasher⟩ := hkeys.exists_makeHasher hzero
  have hin : ∀ row ∈ schedule (activeRows leftMask left.numRows),
      overflows (combinedAndOrs left right) (left.bufferRow row) = false := by
    intro row hrow
    rw [hkeys.overflows_eq, hrange row ((hschedule _).mem_iff.1 hrow)]
    rfl
  have hbufs := hkeys.leftAligned.bufferRow_eq
  have hbufs' := hkeys.rightAligned.bufferRow_eq
  have hnd : ((schedule (activeRows leftMask left.numRows)).map left.bufferRow).Nodup := by
    rw [hbufs]
    exact (((hschedule _).map _).nodup_iff).2 huniq
  obtain ⟨pairs, hpairs, hperm⟩ := maskedJoin_of_not_overflows hmake hhasher hkeys.toAreKeys
    (fun _ => lt_of_mem_schedule hschedule) (fun _ => lt_of_mem_schedule hschedule) hnd hin
  refine ⟨pairs, (perfectJoin_of_nonempty hkeys hemp).trans hpairs, hperm.trans ?_⟩
  rw [hbufs, hbufs']
  exact inner_perm _ (hschedule _) (hschedule _)

lemma perfectJoin_of_not_isInRange (hzero : hasZeroColumn left right = false) {row : Nat}
    (hrow : row ∈ activeRows leftMask left.numRows) (hrange : isInRange left right row = false) :
    perfectJoin schedule left right leftMask rightMask = .error .outOfBounds := by
  obtain ⟨hasher, hmake, hhasher⟩ := hkeys.exists_makeHasher hzero
  have hovf := hkeys.overflows_eq row
  rw [hrange] at hovf
  rw [perfectJoin_of_nonempty hkeys hemp]
  exact maskedJoin_of_overflows hmake hhasher hkeys.toAreKeys
    (fun _ => lt_of_mem_schedule hschedule) ((hschedule _).mem_iff.2 hrow) hovf

lemma isEquijoin_iff (huniq : ((activeRows leftMask left.numRows).map left.row).Nodup) :
    IsEquijoin schedule left right leftMask rightMask ↔ hasZeroColumn left right = false ∧
      ∀ row ∈ activeRows leftMask left.numRows, isInRange left right row = true := by
  constructor
  · rintro ⟨pairs, hjoin, -⟩
    cases hzero : hasZeroColumn left right with
    | true =>
      rw [perfectJoin_of_hasZeroColumn hkeys hemp hzero] at hjoin
      cases hjoin
    | false =>
      refine ⟨rfl, fun row hrow => ?_⟩
      by_contra hrange
      rw [perfectJoin_of_not_isInRange hschedule hkeys hemp hzero hrow (eq_false_iff.2 hrange)]
        at hjoin
      cases hjoin
  · rintro ⟨hzero, hrange⟩
    exact isEquijoin_of_isInRange hschedule hkeys hemp hzero huniq hrange

end PerfectJoin

@[simp] def byteColumn (type : DataType) (bytes : List UInt8) : KeyColumn where
  type := type
  head i := bytes.getD i 0
  offset := 0
  isValid _ := true

def byteTable (type : DataType) (bytes : List UInt8) (h : bytes.length < 2 ^ 31) : KeyTable where
  columns := [byteColumn type bytes]
  numRows := bytes.length
  numRows_lt := h
  numRows_eq_zero := by simp

def positiveKeys : KeyTable := byteTable .int8 [1, 2] (by decide)

theorem hashesInRange_positive :
    ∃ hasher, makeHasher (combinedAndOrs positiveKeys positiveKeys) = .ok hasher ∧
      (hasher.isPerfect → positiveKeys.HashesInRange hasher ∧ positiveKeys.HashesInRange hasher) :=
  (hashesInRange_iff positiveKeys positiveKeys rfl (by decide)).2 (by decide +kernel)

def negativeKeys : KeyTable := byteTable .int8 [255] (by decide)

/-- The hasher takes the key -1 for eight bits, but its hash has 64. -/
theorem hashesInRange_negative :
    makeHasher (combinedAndOrs negativeKeys negativeKeys) = .ok (.shift1 [⟨0⟩] 8) ∧
      (Hasher.shift1 [⟨0⟩] 8).isPerfect ∧ ¬negativeKeys.HashesInRange (.shift1 [⟨0⟩] 8) :=
  ⟨by decide +kernel, by decide, fun h => absurd (h 0 (by decide)) (by decide +kernel)⟩

/-- The hasher with three shifts for the bits in which the rows of a table differ. -/
def shift3HasherOf (keys : KeyTable) : Hasher :=
  makeShift3Hasher (keys.columns.map (reduceAndOr · keys.numRows))

lemma combinedAndOrs_self (keys : KeyTable) :
    combinedAndOrs keys keys = keys.columns.map (reduceAndOr · keys.numRows) := by
  rw [combinedAndOrs, combineColumns, zipWith_self]
  exact map_congr_left fun column _ => by simp [AndOr.combine]

/-- Up to 64 bits, the packed keys are in range, and different keys are packed differently. -/
theorem hash_shift3HasherOf (keys : KeyTable) (hknown : ∀ type ∈ keys.types, isKnown type)
    (hbits : (shift3HasherOf keys).totalSignificantBits ≤ 64) {row : Nat}
    (hrow : row < keys.numRows) :
    ((shift3HasherOf keys).hash keys.types (keys.bufferRow row)).toNat <
        2 ^ (shift3HasherOf keys).totalSignificantBits ∧
      ∀ row' < keys.numRows, keys.bufferRow row ≠ keys.bufferRow row' →
        (shift3HasherOf keys).hash keys.types (keys.bufferRow row) ≠
          (shift3HasherOf keys).hash keys.types (keys.bufferRow row') := by
  have hkeys : AreKeys keys keys := ⟨rfl, hknown⟩
  obtain ⟨htypes, hrows⟩ := hkeys.isOver_left
  rw [shift3HasherOf, ← combinedAndOrs_self] at hbits ⊢
  obtain ⟨fields, hencoding⟩ := isEncoding_shift3 hkeys.isNarrow hbits
  rw [htypes]
  refine ⟨isBelow_iff.1 (hencoding.filled _ (hrows row hrow)).isBelow, fun row' hrow' hne heq => ?_⟩
  refine hne (hencoding.eq_of_agreeBelow hbits (hrows row hrow) (hrows row' hrow') ?_)
  rw [heq]
  exact fun _ _ => rfl

theorem hash_shift3HasherOf_positiveKeys :
    (shift3HasherOf positiveKeys).hash positiveKeys.types (positiveKeys.bufferRow 0) ≠
      (shift3HasherOf positiveKeys).hash positiveKeys.types (positiveKeys.bufferRow 1) :=
  (hash_shift3HasherOf positiveKeys (by decide) (by decide +kernel) (by decide)).2 1 (by decide)
    (by decide +kernel)

end Gqe.PerfectHash
