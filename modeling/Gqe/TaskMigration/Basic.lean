import Gqe.Lib.LittleEndian
import Gqe.Lib.RoundTrip

/-!
# Task migration

The result of a task that another rank has executed is fetched in two steps
(`rpc/task_migration.cpp`): the other rank sends a description of the table, with the addresses of
its buffers (`proto/result.proto`), and the buffers are then copied from the memory of that rank.
-/

namespace Gqe.TaskMigration

/-! ### Types -/

inductive TypeId where
  | empty | int8 | int16 | int32 | int64 | uint8 | uint16 | uint32 | uint64 | float32 | float64
  | bool8 | timestampDays | timestampSeconds | timestampMilliseconds | timestampMicroseconds
  | timestampNanoseconds | durationDays | durationSeconds | durationMilliseconds
  | durationMicroseconds | durationNanoseconds | dictionary32 | string | list | decimal32
  | decimal64 | decimal128 | struct
  deriving DecidableEq

namespace TypeId

/-- `cudf::size_of`, for the types of fixed width. -/
def sizeOf : TypeId → Option Nat
  | .int8 | .uint8 | .bool8 => some 1
  | .int16 | .uint16 => some 2
  | .int32 | .uint32 | .float32 | .timestampDays | .durationDays | .decimal32 => some 4
  | .int64 | .uint64 | .float64 | .timestampSeconds | .timestampMilliseconds
  | .timestampMicroseconds | .timestampNanoseconds | .durationSeconds | .durationMilliseconds
  | .durationMicroseconds | .durationNanoseconds | .decimal64 => some 8
  | .decimal128 => some 16
  | .empty | .dictionary32 | .string | .list | .struct => none

def isFixedPoint : TypeId → Bool
  | .decimal32 | .decimal64 | .decimal128 => true
  | _ => false

end TypeId

/-- `cudf::data_type`: only decimals have a scale. -/
structure ColumnType where
  id : TypeId
  scale : Int
  scale_eq : id.isFixedPoint = false → scale = 0

/-- `cudf::data_type(id)`, without a scale. -/
def ColumnType.ofId (id : TypeId) : ColumnType := ⟨id, 0, fun _ => rfl⟩

lemma ColumnType.ext_iff {type type' : ColumnType} :
    type = type' ↔ type.id = type'.id ∧ type.scale = type'.scale := by
  cases type
  cases type'
  simp

lemma ColumnType.ofId_id_eq_iff {type : ColumnType} : .ofId type.id = type ↔ type.scale = 0 := by
  rw [ext_iff]
  exact ⟨fun h => h.2.symm, fun h => ⟨rfl, h.symm⟩⟩

/-! ### Memory -/

/-- A pointer into an allocation. -/
structure Pointer where
  block : Nat
  offset : Nat
  deriving DecidableEq

/-- The memory of a rank: the bytes of each of its allocations. -/
def Memory := Nat → Nat → UInt8

def Memory.byteAt (mem : Memory) (pointer : Option Pointer) (i : Nat) : UInt8 :=
  match pointer with
  | some pointer => mem pointer.block (pointer.offset + i)
  | none => 0

/-- `migrate_buffer`: copy bytes from the memory of the other rank. -/
def migrateBuffer (mem : Memory) (source : Option Pointer) (bytes : Nat) : List UInt8 :=
  (List.range bytes).map (mem.byteAt source)

def byteOf (buffer : List UInt8) (i : Nat) : UInt8 := buffer.getD i 0

/-- The bytes of a copy are those at the source. -/
lemma byteOf_migrateBuffer {mem : Memory} {source : Option Pointer} {bytes i : Nat}
    (hi : i < bytes) : byteOf (migrateBuffer mem source bytes) i = mem.byteAt source i := by
  simp [byteOf, migrateBuffer, hi]

/-! ### Rows -/

/-- What a column has in a row. -/
inductive Value where
  | null
  | bytes (contents : List UInt8)
  | list (elements : List Value)
  | struct (fields : List Value)

/-- An offset of a column of strings or lists, read from a row of its column of offsets. -/
def Value.toOffset : Value → Nat
  | .bytes contents => LittleEndian.natOfBytes contents
  | _ => 0

/-- The offset at a position, among the rows of a column of offsets. -/
def offsetAt (offsets : List Value) (i : Nat) : Nat := (offsets.getD i .null).toOffset

def bytesFrom (data : Nat → UInt8) (start count : Nat) : List UInt8 :=
  (List.range count).map fun k => data (start + k)

/-- The value in a row that is not NULL, given the data of the column and the rows of its
children. -/
def valueAt (id : TypeId) (data : Nat → UInt8) (children : List (List Value)) (i : Nat) : Value :=
  match id with
  | .string =>
    let start := offsetAt (children.getD 0 []) i
    .bytes (bytesFrom data start (offsetAt (children.getD 0 []) (i + 1) - start))
  | .list =>
    let start := offsetAt (children.getD 0 []) i
    .list (((children.getD 1 []).drop start).take
      (offsetAt (children.getD 0 []) (i + 1) - start))
  | .struct => .struct (children.map fun rows => rows.getD i .null)
  | id => .bytes (bytesFrom data (i * id.sizeOf.getD 0) (id.sizeOf.getD 0))

/-- The rows of a column from an offset on. -/
def rowsOf (id : TypeId) (data : Nat → UInt8) (children : List (List Value)) (offset : Nat)
    (validity : List Bool) : List Value :=
  validity.mapIdx fun i valid => if valid then valueAt id data children (offset + i) else .null

def bitAt (mask : Nat → UInt8) (i : Nat) : Bool := (mask (i / 8)).toNat.testBit (i % 8)

/-- The rows of which a bit says whether they are valid, where there may be no mask. -/
def validityOf (mask : Option (Nat → UInt8)) (offset size : Nat) : List Bool :=
  (List.range size).map fun i =>
    match mask with
    | some mask => bitAt mask (offset + i)
    | none => true

@[simp] lemma length_validityOf (mask : Option (Nat → UInt8)) (offset size : Nat) :
    (validityOf mask offset size).length = size := by
  simp [validityOf]

/-- What can be seen of a column: its type and number of NULLs, which rows are valid, the rows, and
the same of its children. -/
structure Shown where
  type : ColumnType
  nullCount : Nat
  validity : List Bool
  rows : List Value
  children : List Shown

/-! ### Column views -/

/-- `cudf::column_view`. The offset counts the rows before the view in all buffers. -/
structure ColumnView where
  type : ColumnType
  size : Nat
  offset : Nat
  nullCount : Nat
  head : Option Pointer
  nullMask : Option Pointer
  children : List ColumnView

def ColumnView.validity (mem : Memory) (view : ColumnView) : List Bool :=
  validityOf (view.nullMask.map fun mask => mem.byteAt (some mask)) view.offset view.size

mutual

def ColumnView.shown (mem : Memory) : ColumnView → Shown
  | ⟨type, size, offset, nullCount, head, nullMask, children⟩ =>
    let view : ColumnView := ⟨type, size, offset, nullCount, head, nullMask, children⟩
    let children := ColumnView.shownAll mem children
    ⟨type, nullCount, view.validity mem,
      rowsOf type.id (mem.byteAt head) (children.map Shown.rows) offset (view.validity mem),
      children⟩

@[simp] def ColumnView.shownAll (mem : Memory) : List ColumnView → List Shown
  | [] => []
  | view :: views => view.shown mem :: ColumnView.shownAll mem views

end

lemma ColumnView.rows_shown (mem : Memory) : ∀ view : ColumnView, (view.shown mem).rows =
    rowsOf view.type.id (mem.byteAt view.head)
      ((shownAll mem view.children).map Shown.rows) view.offset (view.validity mem)
  | ⟨_, _, _, _, _, _, _⟩ => rfl

/-! ### Owned columns -/

/-- `cudf::column`. There is no null mask if its buffer is empty. -/
structure Column where
  type : ColumnType
  size : Nat
  data : List UInt8
  nullMask : List UInt8
  nullCount : Nat
  children : List Column

def Column.validity (column : Column) : List Bool :=
  validityOf (if column.nullMask = [] then none else some (byteOf column.nullMask)) 0 column.size

mutual

def Column.shown : Column → Shown
  | ⟨type, size, data, nullMask, nullCount, children⟩ =>
    let column : Column := ⟨type, size, data, nullMask, nullCount, children⟩
    let children := Column.shownAll children
    ⟨type, nullCount, column.validity,
      rowsOf type.id (byteOf data) (children.map Shown.rows) 0 column.validity, children⟩

@[simp] def Column.shownAll : List Column → List Shown
  | [] => []
  | column :: columns => column.shown :: Column.shownAll columns

end

lemma Column.rows_shown : ∀ column : Column, column.shown.rows =
    rowsOf column.type.id (byteOf column.data) ((shownAll column.children).map Shown.rows) 0
      column.validity
  | ⟨_, _, _, _, _, _⟩ => rfl

/-! ### Messages -/

/-- `proto::Column`, with the number of the type. -/
structure ProtoColumn where
  type : Nat
  size : Nat
  dataLocation : Option Pointer
  dataBytes : Nat
  nullMaskLocation : Option Pointer
  nullCount : Nat
  children : List ProtoColumn

structure ProtoTable where
  columns : List ProtoColumn
  numRows : Nat

/-- What the two sides throw. -/
inductive Failure where
  | runtimeError (what : String)
  | invalidTypeId
  deriving DecidableEq

/-- `to_proto` of a type. The scale is not sent. -/
def toProtoType (type : ColumnType) : Nat :=
  match type.id with
  | .empty => 0
  | .int8 => 1
  | .int16 => 2
  | .int32 => 3
  | .int64 => 4
  | .uint8 => 5
  | .uint16 => 6
  | .uint32 => 7
  | .uint64 => 8
  | .float32 => 9
  | .float64 => 10
  | .bool8 => 11
  | .timestampDays => 12
  | .timestampSeconds => 13
  | .timestampMilliseconds => 14
  | .timestampMicroseconds => 15
  | .timestampNanoseconds => 16
  | .durationDays => 17
  | .durationSeconds => 18
  | .durationMilliseconds => 19
  | .durationMicroseconds => 20
  | .durationNanoseconds => 21
  | .dictionary32 => 22
  | .string => 23
  | .list => 24
  | .decimal32 => 25
  | .decimal64 => 26
  | .decimal128 => 27
  | .struct => 28

/-- `from_proto` of a type. -/
def fromProtoType (type : Nat) : Except Failure ColumnType :=
  match type with
  | 0 => .ok (.ofId .empty)
  | 1 => .ok (.ofId .int8)
  | 2 => .ok (.ofId .int16)
  | 3 => .ok (.ofId .int32)
  | 4 => .ok (.ofId .int64)
  | 5 => .ok (.ofId .uint8)
  | 6 => .ok (.ofId .uint16)
  | 7 => .ok (.ofId .uint32)
  | 8 => .ok (.ofId .uint64)
  | 9 => .ok (.ofId .float32)
  | 10 => .ok (.ofId .float64)
  | 11 => .ok (.ofId .bool8)
  | 12 => .ok (.ofId .timestampDays)
  | 13 => .ok (.ofId .timestampSeconds)
  | 14 => .ok (.ofId .timestampMilliseconds)
  | 15 => .ok (.ofId .timestampMicroseconds)
  | 16 => .ok (.ofId .timestampNanoseconds)
  | 17 => .ok (.ofId .durationDays)
  | 18 => .ok (.ofId .durationSeconds)
  | 19 => .ok (.ofId .durationMilliseconds)
  | 20 => .ok (.ofId .durationMicroseconds)
  | 21 => .ok (.ofId .durationNanoseconds)
  | 22 => .ok (.ofId .dictionary32)
  | 23 => .ok (.ofId .string)
  | 24 => .ok (.ofId .list)
  | 25 => .ok (.ofId .decimal32)
  | 26 => .ok (.ofId .decimal64)
  | 27 => .ok (.ofId .decimal128)
  | 28 => .ok (.ofId .struct)
  | _ => .error (.runtimeError "Unsupported data type")

lemma fromProto_toProtoType (type : ColumnType) :
    fromProtoType (toProtoType type) = .ok (.ofId type.id) := by
  obtain ⟨id, scale, hscale⟩ := type
  cases id <;> rfl

/-- `strings_column_view::chars_size`: the last offset. -/
def charsSize (mem : Memory) (view : ColumnView) : Nat :=
  match view.size, view.children with
  | 0, _ => 0
  | _ + 1, [] => 0
  | _ + 1, offsets :: _ => offsetAt (offsets.shown mem).rows (offsets.size - 1)

/-- The number of bytes of the data of a column. Of a type without a size, `is_fixed_width` throws
if it is `EMPTY`. -/
def dataBytes (mem : Memory) (view : ColumnView) : Except Failure Nat :=
  match view.type.id.sizeOf, view.type.id with
  | some width, _ => .ok (view.size * width)
  | none, .string => .ok (charsSize mem view)
  | none, .list | none, .struct => .ok 0
  | none, .empty => .error .invalidTypeId
  | none, _ => .error (.runtimeError "Unsupported data type")

mutual

/-- `task_migration_service::to_proto` of a column. The location of the data is
`col.data<std::byte>()`, which counts the offset in bytes. -/
def toProto (mem : Memory) : ColumnView → Except Failure ProtoColumn
  | ⟨type, size, offset, nullCount, head, nullMask, children⟩ => do
    let dataBytes ← dataBytes mem ⟨type, size, offset, nullCount, head, nullMask, children⟩
    let children ← toProtoAll mem children
    .ok {
      type := toProtoType type
      size := size
      dataLocation := head.map fun head => ⟨head.block, head.offset + offset⟩
      dataBytes := dataBytes
      nullMaskLocation := nullMask
      nullCount := nullCount
      children := children }

def toProtoAll (mem : Memory) : List ColumnView → Except Failure (List ProtoColumn)
  | [] => .ok []
  | view :: views => do
    let column ← toProto mem view
    let columns ← toProtoAll mem views
    .ok (column :: columns)

end

/-- `task_migration_service::to_proto` of a table. -/
def toProtoTable (mem : Memory) (table : List ColumnView) : Except Failure ProtoTable := do
  let columns ← toProtoAll mem table
  .ok ⟨columns, (table.head?.map ColumnView.size).getD 0⟩

mutual

/-- `nvshmem_task_migration_client::from_proto` of a column. -/
def fromProto (mem : Memory) : ProtoColumn → Except Failure Column
  | ⟨type, size, dataLocation, dataBytes, nullMaskLocation, nullCount, children⟩ => do
    let children ← fromProtoAll mem children
    let dataBuffer := migrateBuffer mem dataLocation dataBytes
    let nullMaskBuffer :=
      if nullCount > 0 then migrateBuffer mem nullMaskLocation (size * 4) else []
    let type ← fromProtoType type
    .ok ⟨type, size, dataBuffer, nullMaskBuffer, nullCount, children⟩

def fromProtoAll (mem : Memory) : List ProtoColumn → Except Failure (List Column)
  | [] => .ok []
  | column :: columns => do
    let column ← fromProto mem column
    let columns ← fromProtoAll mem columns
    .ok (column :: columns)

end

/-- `nvshmem_task_migration_client::from_proto` of a table. -/
def fromProtoTable (mem : Memory) (table : ProtoTable) : Except Failure (List Column) :=
  fromProtoAll mem table.columns

/-- The table of a task on another rank, after its metadata was fetched. -/
def migrateTable (mem : Memory) (table : List ColumnView) : Except Failure (List Column) :=
  toProtoTable mem table >>= fromProtoTable mem

end Gqe.TaskMigration
