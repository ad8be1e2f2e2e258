import Gqe.Expression
import Gqe.Lib.LinearProbing
import Gqe.Lib.LittleEndian

/-!
# Perfect hashing

`libperfect/xor_hash_table.cuh` and `libperfect/query_common.hpp`. A table of keys is hashed by one
of several encodings, chosen by the bits that are used by the elements of its columns. If the hashes
are small enough, each has a slot of its own, and neither inserting nor looking up a key compares it
with the key that is there.
-/

namespace Gqe.PerfectHash

open List

/-- How a call ends without a result. The texts leave out the file and line in front of them. A
kernel that writes beyond the end of its array does not return anything that can be relied on, and
neither does a call of a builtin that is undefined. -/
inductive Failure where
  | logicError (what : String)
  | invalidArgument (what : String)
  | outOfBounds
  | undefined
  deriving DecidableEq

/-! ### Key columns -/

/-- `cudf::size_of`, in bytes; other types do not have fixed width. -/
def elementSize : DataType → Nat
  | .int8 | .uint8 | .bool8 => 1
  | .int16 | .uint16 => 2
  | .int32 | .uint32 | .float32 | .timestampDays | .decimal32 _ => 4
  | .int64 | .uint64 | .float64 | .decimal64 _ => 8
  | .decimal128 _ => 16
  | .empty | .string => 0

/-- A column of keys: the bytes from the head of its buffer on, and the element it starts at. -/
structure KeyColumn where
  type : DataType
  head : Nat → UInt8
  offset : Nat
  isValid : Nat → Bool

/-- The bits of an integer of up to eight bytes in memory. -/
def load (memory : Nat → UInt8) (address size : Nat) : BitVec 64 :=
  .ofNat 64 (LittleEndian.natOfBytes ((range size).map fun i => memory (address + i)))

namespace KeyColumn

variable (column : KeyColumn)

def element (i : Nat) : BitVec 64 :=
  load column.head ((column.offset + i) * elementSize column.type) (elementSize column.type)

/-- The bits of an element as the buffer pointer of the column has them. The pointer is
`data<int>()`, which counts the offset in elements of four bytes. -/
def bufferElement (i : Nat) : BitVec 64 :=
  load column.head (4 * column.offset + i * elementSize column.type) (elementSize column.type)

def hasNulls (numRows : Nat) : Bool := (range numRows).any fun i => !column.isValid i

end KeyColumn

/-- A 64-bit integer from the bits of a signed one. -/
def signExtendFrom (n : Nat) (bits : BitVec 64) : BitVec 64 := (bits.setWidth n).signExtend 64

/-- The types `CudaBufferPointer::operator[]` knows. -/
def isKnown : DataType → Bool
  | .int8 | .int16 | .int32 | .int64 | .uint8 | .uint16 | .uint32 | .uint64
  | .float32 | .float64 | .timestampDays => true
  | _ => false

/-- `CudaBufferPointer::operator[]`, for the types it knows. -/
def readElement (type : DataType) (bits : BitVec 64) : BitVec 64 :=
  match type with
  | .int8 => signExtendFrom 8 bits
  | .int16 => signExtendFrom 16 bits
  | .int32 | .float32 | .timestampDays => signExtendFrom 32 bits
  | .int64 | .float64 => signExtendFrom 64 bits
  | _ => bits

/-- The values `operator[]` gives for the elements of a row. -/
def readElements (types : List DataType) (bits : List (BitVec 64)) : List (BitVec 64) :=
  zipWith readElement types bits

/-- A table of keys. A table without columns has no rows. -/
structure KeyTable where
  columns : List KeyColumn
  numRows : Nat
  numRows_lt : numRows < 2 ^ 31
  numRows_eq_zero : columns = [] → numRows = 0

namespace KeyTable

variable (table : KeyTable)

def types : List DataType := table.columns.map KeyColumn.type

/-- The bits of a row as the buffer pointers have them. -/
def bufferRow (row : Nat) : List (BitVec 64) := table.columns.map (KeyColumn.bufferElement · row)

end KeyTable

def equalRow (left : KeyTable) (leftIndex : Nat) (right : KeyTable) (rightIndex : Nat) : Bool :=
  readElements left.types (left.bufferRow leftIndex) =
    readElements right.types (right.bufferRow rightIndex)

/-! ### The bits in use -/

/-- The elements of a column combined by "and" and "or". -/
structure AndOr where
  type : DataType
  andValue : BitVec 64
  orValue : BitVec 64

/-- `reduce_and_or_cuda`. -/
def reduceAndOr (column : KeyColumn) (numRows : Nat) : AndOr where
  type := column.type
  andValue := ((range numRows).map column.bufferElement).foldl (· &&& ·)
    ((BitVec.allOnes (8 * elementSize column.type)).setWidth 64)
  orValue := ((range numRows).map column.bufferElement).foldl (· ||| ·) 0

/-- The combination of both sides of a join. `operator[]` and `set` widen and narrow the values,
which does not change their bits. -/
def AndOr.combine (insert lookup : AndOr) : AndOr where
  type := insert.type
  andValue := insert.andValue &&& lookup.andValue
  orValue := insert.orValue ||| lookup.orValue

/-- The leading zeros of an integer. Integers of less than four bytes are widened before their zeros
are counted, and the added bits are subtracted. -/
def leadingZeros (size : Nat) (value : BitVec 64) : Int :=
  if size = 4 then (value.setWidth 32).clz.toNat
  else if size = 8 then value.clz.toNat
  else (signExtendFrom (8 * size) value).clz.toNat - (8 - size) * 8

/-- `clz`. The builtins it calls are undefined at zero. -/
def clz (size : Nat) (value : BitVec 64) : Except Failure Int :=
  if value = 0#64 then .error .undefined else .ok (leadingZeros size value)

/-! ### Instructions -/

structure Shift1Instruction where
  left0 : Nat
  deriving DecidableEq

def Shift1Instruction.isLast (_ : Shift1Instruction) : Bool := true

def Shift1Instruction.apply (instruction : Shift1Instruction) (value : BitVec 64) : BitVec 64 :=
  value <<< instruction.left0

structure Shift3Instruction where
  left0 : Nat
  right1 : Nat
  left2 : Nat
  last : Bool
  deriving DecidableEq

def Shift3Instruction.isLast (instruction : Shift3Instruction) : Bool := instruction.last

def Shift3Instruction.apply (instruction : Shift3Instruction) (value : BitVec 64) : BitVec 64 :=
  ((value <<< instruction.left0) >>> instruction.right1) <<< instruction.left2

section

variable {I : Type*} (apply : I → BitVec 64 → BitVec 64) (isLast : I → Bool)

/-- The inner loop of `InstructionHasherView::hash`: the instructions of one column. It returns the
instructions that are left. -/
def hashColumn (value : BitVec 64) : List I → BitVec 64 → List I × BitVec 64
  | [], ret => ([], ret)
  | instruction :: instructions, ret =>
    let ret := ret ^^^ apply instruction value
    if isLast instruction then (instructions, ret) else hashColumn value instructions ret

/-- `InstructionHasherView::hash`. -/
def instructionHash : List (BitVec 64) → List I → BitVec 64 → BitVec 64
  | [], _, ret => ret
  | value :: values, instructions, ret =>
    let column := hashColumn apply isLast value instructions ret
    instructionHash values column.1 column.2

end

/-! ### Hashers -/

/-- The encodings, with `total_significant_bits`. The identity of one column is for integers of the
given size. -/
inductive Hasher where
  | identity (size totalSignificantBits : Nat)
  | identity8x8 (totalSignificantBits : Nat)
  | shift1 (instructions : List Shift1Instruction) (totalSignificantBits : Nat)
  | shift3 (instructions : List Shift3Instruction) (totalSignificantBits : Nat)
  deriving DecidableEq

def Hasher.totalSignificantBits : Hasher → Nat
  | .identity _ bits | .identity8x8 bits | .shift1 _ bits | .shift3 _ bits => bits

/-- `hash`, of the elements of a row. The identity reads them as signed integers, whatever their
types are. -/
def Hasher.hash (hasher : Hasher) (types : List DataType) (bits : List (BitVec 64)) : BitVec 64 :=
  match hasher, bits with
  | .identity size _, bits0 :: _ => signExtendFrom (8 * size) bits0
  | .identity8x8 _, bits0 :: bits1 :: _ => signExtendFrom 8 bits0 ^^^ (signExtendFrom 8 bits1 <<< 8)
  | .shift1 instructions _, bits =>
    instructionHash Shift1Instruction.apply Shift1Instruction.isLast (readElements types bits)
      instructions 0
  | .shift3 instructions _, bits =>
    instructionHash Shift3Instruction.apply Shift3Instruction.isLast (readElements types bits)
      instructions 0
  | _, _ => 0

/-- `make_identity_hasher` for one column. -/
def makeIdentityHasher (size : Nat) (andOrs : List AndOr) : Except Failure (Option Hasher) :=
  match andOrs with
  | [andOr] =>
    if elementSize andOr.type ≠ size then .ok none
    else do
      let zeros ← clz size andOr.orValue
      let totalSignificantBits := (8 * size - zeros).toNat
      .ok (if 20 < totalSignificantBits then none else some (.identity size totalSignificantBits))
  | _ => .ok none

/-- `make_identity_hasher` for two columns of single bytes, which looks at the second only. -/
def makeIdentityHasher8x8 (andOrs : List AndOr) : Except Failure (Option Hasher) :=
  match andOrs with
  | [andOr0, andOr1] =>
    if elementSize andOr0.type ≠ 1 then .ok none
    else if elementSize andOr1.type ≠ 1 then .ok none
    else do
      let zeros ← clz 1 andOr1.orValue
      let totalSignificantBits := (8 - zeros + 8).toNat
      .ok (if 20 < totalSignificantBits then none else some (.identity8x8 totalSignificantBits))
  | _ => .ok none

/-- The instructions `make_shift1_hasher` collects, which are made of bytes, and the bits they take
up to the end. -/
def shift1Instructions : List AndOr → Nat → Except Failure (List Shift1Instruction × Nat)
  | [], totalSignificantBits => .ok ([], totalSignificantBits)
  | andOr :: andOrs, totalSignificantBits => do
    let zeros ← clz 8 andOr.orValue
    let significantBits := (64 - zeros).toNat
    let rest ← shift1Instructions andOrs (totalSignificantBits + significantBits)
    .ok (⟨totalSignificantBits % 256⟩ :: rest.1, rest.2)

def makeShift1Hasher (andOrs : List AndOr) : Except Failure (Option Hasher) := do
  let instructions ← shift1Instructions andOrs 0
  .ok (if 20 < instructions.2 then none else some (.shift1 instructions.1 instructions.2))

/-- The loop of `make_shift3_hasher` over the bits of one column: an instruction for each run of
bits that differ between rows. -/
def shift3Runs : (fuel : Nat) → (xorValue : BitVec 64) → (bitsConsumed totalSignificantBits : Nat) →
    List Shift3Instruction × Nat
  | 0, _, _, totalSignificantBits => ([], totalSignificantBits)
  | fuel + 1, xorValue, bitsConsumed, totalSignificantBits =>
    if xorValue = 0 then ([⟨32, 0, 32, true⟩], totalSignificantBits)
    else if ~~~xorValue = 0 then
      ([⟨0, 0, totalSignificantBits % 256, true⟩], totalSignificantBits + 64)
    else
      let lsbZeros := xorValue.ctz.toNat
      let xorValue := xorValue >>> lsbZeros
      let lsbOnes := (~~~xorValue).ctz.toNat
      let xorValue := xorValue >>> lsbOnes
      let numBitsToMaskOnRight := bitsConsumed + lsbZeros
      let numBitsToMaskOnLeft := 64 - bitsConsumed - lsbZeros - lsbOnes
      let left0 := numBitsToMaskOnLeft % 256
      let right1 := (numBitsToMaskOnLeft + numBitsToMaskOnRight) % 256
      let left2 := totalSignificantBits % 256
      if xorValue = 0 then ([⟨left0, right1, left2, true⟩], totalSignificantBits + lsbOnes)
      else
        let rest := shift3Runs fuel xorValue (bitsConsumed + (lsbZeros + lsbOnes))
          (totalSignificantBits + lsbOnes)
        (⟨left0, right1, left2, false⟩ :: rest.1, rest.2)

/-- The loop of `make_shift3_hasher` over the columns. A column has at most 64 runs. -/
def shift3Instructions : List AndOr → Nat → List Shift3Instruction × Nat
  | [], totalSignificantBits => ([], totalSignificantBits)
  | andOr :: andOrs, totalSignificantBits =>
    let column := shift3Runs 64 (andOr.andValue ^^^ andOr.orValue) 0 totalSignificantBits
    let rest := shift3Instructions andOrs column.2
    (column.1 ++ rest.1, rest.2)

def makeShift3Hasher (andOrs : List AndOr) : Hasher :=
  let instructions := shift3Instructions andOrs 0
  .shift3 instructions.1 instructions.2

/-- The hasher of an attempt, or else that of the next ones. -/
def orTry (attempt : Except Failure (Option Hasher)) (next : Except Failure Hasher) :
    Except Failure Hasher :=
  match attempt with
  | .ok (some hasher) => .ok hasher
  | .ok none => next
  | .error failure => .error failure

/-- The hasher `make_hash_table` chooses. -/
def makeHasher (andOrs : List AndOr) : Except Failure Hasher :=
  orTry (makeIdentityHasher 1 andOrs) <| orTry (makeIdentityHasher8x8 andOrs) <|
  orTry (makeIdentityHasher 2 andOrs) <| orTry (makeIdentityHasher 4 andOrs) <|
  orTry (makeIdentityHasher 8 andOrs) <| orTry (makeShift1Hasher andOrs) <|
  .ok (makeShift3Hasher andOrs)

/-! ### Hash tables -/

def maxHashtableSize : Nat := 1024 * 1024 * 1024 * 8

/-- The primes of `nextprime_pow2`. -/
def primes : List Nat :=
  [2, 3, 5, 11, 17, 37, 67, 131, 257, 521, 1031, 2053, 4099, 8209, 16411, 32771, 65537, 131101,
   262147, 524309, 1048583, 2097169, 4194319, 8388617, 16777259, 33554467, 67108879, 134217757,
   268435459, 536870923, 1073741827, 2147483659, 4294967311, 8589934609, 17179869209, 34359738421,
   68719476767, 137438953481, 274877906951, 549755813911, 1099511627791, 2199023255579,
   4398046511119, 8796093022237, 17592186044423, 35184372088891, 70368744177679, 140737488355333,
   281474976710677, 562949953421381, 1125899906842679, 2251799813685269, 4503599627370517,
   9007199254740997, 18014398509482143, 36028797018963971, 72057594037928017, 144115188075855881,
   288230376151711813, 576460752303423619, 1152921504606847009, 2305843009213693967,
   4611686018427388039]

/-- `nextprime_pow2`: the smallest prime that is larger than the power of two. -/
def nextprimePow2 (value : Nat) : Except Failure Nat :=
  match primes[value]? with
  | some prime => .ok prime
  | none => .error (.invalidArgument "can't find prime")

namespace Hasher

variable (hasher : Hasher)

def isPerfect : Bool := hasher.totalSignificantBits ≤ 64

def max : Nat := 2 ^ hasher.totalSignificantBits - 1

def perfectHashing : Bool := hasher.isPerfect && hasher.max < maxHashtableSize

def hashTableSize (keysNumel : Nat) : Except Failure Nat :=
  if hasher.perfectHashing then .ok (hasher.max + 1)
  else nextprimePow2 (64 - (BitVec.ofNat 64 keysNumel).clz.toNat + 2)

end Hasher

/-- A hash table; an empty slot is -1 in the source. -/
structure HashTable where
  hasher : Hasher
  size : Nat
  slots : Nat → Option Nat

/-- `make_hash_table` once the bits in use are known. -/
def makeHashTable (keysNumel : Nat) (andOrs : List AndOr) : Except Failure HashTable := do
  let hasher ← makeHasher andOrs
  let size ← hasher.hashTableSize keysNumel
  return ⟨hasher, size, fun _ => none⟩

namespace HashTable

/-- `insert`: the row that is in the table now, `none` if there is no room. A perfect hash is not
brought into the range of the table. -/
def insert (checkEquality : Bool) (keys : KeyTable) (table : HashTable) (row : Nat) :
    Except Failure (Option Nat × HashTable) :=
  let hash := (table.hasher.hash keys.types (keys.bufferRow row)).toNat
  if table.hasher.perfectHashing then
    if hash < table.size then
      .ok (some row, { table with slots := Function.update table.slots hash (some row) })
    else .error .outOfBounds
  else
    let same orig := checkEquality && equalRow keys row keys orig
    match LinearProbing.insert table.size same row table.slots table.size (hash % table.size) with
    | some result => .ok (some result.1, { table with slots := result.2 })
    | none => .ok (none, table)

def startLookup (table : HashTable) (keys : KeyTable) (row : Nat) (hashKeys : KeyTable) :
    Option Nat :=
  let slot := (table.hasher.hash keys.types (keys.bufferRow row)).toNat % table.size
  if table.hasher.perfectHashing then table.slots slot
  else LinearProbing.find table.size (fun content => equalRow keys row hashKeys content) table.slots
    table.size slot

/-- `hash_insert_kernel`, with the rows in the order in which they get to the table. -/
def insertAll (checkEquality : Bool) (keys : KeyTable) (rows : List Nat) (table : HashTable) :
    Except Failure HashTable :=
  rows.foldlM (fun table row => (table.insert checkEquality keys row).map Prod.snd) table

end HashTable

end Gqe.PerfectHash
