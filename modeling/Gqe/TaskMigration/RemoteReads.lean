import Gqe.TaskMigration.Basic

/-!
# Remote reads

Which bytes of the other rank are copied while a column is rebuilt. Four bytes for each row are
copied of a null mask that has a bit for each row.
-/

namespace Gqe.TaskMigration

open Fallible List

def bitmaskAllocationSizeBytes (numRows : Nat) : Nat := ((numRows + 7) / 8 + 63) / 64 * 64

mutual

/-- The calls of `migrate_buffer` in `from_proto` of a column, with their sources and sizes. -/
def remoteReads : ProtoColumn → List (Option Pointer × Nat)
  | ⟨_, size, dataLocation, dataBytes, nullMaskLocation, nullCount, children⟩ =>
    remoteReadsAll children ++ (if dataBytes > 0 then [(dataLocation, dataBytes)] else []) ++
      if nullCount > 0 then [(nullMaskLocation, size * 4)] else []

def remoteReadsAll : List ProtoColumn → List (Option Pointer × Nat)
  | [] => []
  | column :: columns => remoteReads column ++ remoteReadsAll columns

end

variable {mem mem' : Memory}

mutual

/-- A column is rebuilt from nothing but what is copied. -/
lemma fromProto_congr : ∀ (column : ProtoColumn),
    (∀ read ∈ remoteReads column,
      migrateBuffer mem read.1 read.2 = migrateBuffer mem' read.1 read.2) →
      fromProto mem column = fromProto mem' column
  | ⟨type, size, dataLocation, dataBytes, nullMaskLocation, nullCount, children⟩, h => by
    simp only [remoteReads, forall_mem_append] at h
    obtain ⟨⟨hchildren, hdata⟩, hmask⟩ := h
    have hdata' : migrateBuffer mem dataLocation dataBytes =
        migrateBuffer mem' dataLocation dataBytes := by
      rcases Nat.eq_zero_or_pos dataBytes with rfl | hpos
      · rfl
      · exact hdata (dataLocation, dataBytes) (by simp [hpos])
    have hmask' : (if nullCount > 0 then migrateBuffer mem nullMaskLocation (size * 4) else []) =
        if nullCount > 0 then migrateBuffer mem' nullMaskLocation (size * 4) else [] := by
      split_ifs with hpos
      · exact hmask (nullMaskLocation, size * 4) (by simp [hpos])
      · rfl
    rw [fromProto, fromProto, fromProtoAll_congr children hchildren, hdata', hmask']

lemma fromProtoAll_congr : ∀ (columns : List ProtoColumn),
    (∀ read ∈ remoteReadsAll columns,
      migrateBuffer mem read.1 read.2 = migrateBuffer mem' read.1 read.2) →
      fromProtoAll mem columns = fromProtoAll mem' columns
  | [], _ => rfl
  | column :: columns, h => by
    rw [remoteReadsAll, forall_mem_append] at h
    rw [fromProtoAll, fromProtoAll, fromProto_congr column h.1, fromProtoAll_congr columns h.2]

end

/-- The bytes that are read belong to an allocation, of which the size is given. -/
def IsInside (allocated : Nat → Nat) (read : Option Pointer × Nat) : Prop :=
  ∃ pointer ∈ read.1, pointer.offset + read.2 ≤ allocated pointer.block

mutual

def ColumnView.Forall (P : ColumnView → Prop) : ColumnView → Prop
  | ⟨type, size, offset, nullCount, head, nullMask, children⟩ =>
    P ⟨type, size, offset, nullCount, head, nullMask, children⟩ ∧ ColumnView.ForallAll P children

def ColumnView.ForallAll (P : ColumnView → Prop) : List ColumnView → Prop
  | [] => True
  | view :: views => view.Forall P ∧ ColumnView.ForallAll P views

end

/-- The buffers of the column that a view is a part of: `rows` is the number of rows for which a
buffer was allocated. Characters of strings are counted by `chars_size`. -/
structure ColumnView.IsAllocated (mem : Memory) (allocated rows : Nat → Nat) (view : ColumnView) :
    Prop where
  nullMask : 0 < view.nullCount → ∃ block, view.nullMask = some ⟨block, 0⟩ ∧
    view.offset + view.size ≤ rows block ∧ allocated block = bitmaskAllocationSizeBytes (rows block)
  data : ∀ bytes, dataBytes mem view = .ok bytes → 0 < bytes →
    ∃ block, view.head = some ⟨block, 0⟩ ∧
    view.offset + view.size ≤ rows block ∧
    allocated block = (view.type.id.sizeOf.map (rows block * ·)).getD bytes

/-- If there are NULLs, four bytes for each row fit in the null mask, and if there are characters,
the view starts at the first row. -/
def ColumnView.Fits (mem : Memory) (rows : Nat → Nat) (view : ColumnView) : Prop :=
  (0 < view.nullCount → ∀ pointer ∈ view.nullMask,
    view.size * 4 ≤ bitmaskAllocationSizeBytes (rows pointer.block)) ∧
  (view.type.id.sizeOf = none → dataBytes mem view ≠ .ok 0 → view.offset = 0)

variable {allocated rows : Nat → Nat}

/-- Masks are allocated in steps of 64 bytes, so that four bytes for each row fit in the mask of few
rows. -/
lemma mul_four_le_bitmask_iff (numRows : Nat) :
    numRows * 4 ≤ bitmaskAllocationSizeBytes numRows ↔ numRows ≤ 16 := by
  unfold bitmaskAllocationSizeBytes
  omega

/-- A whole column with NULLs fits if and only if it has at most 16 rows. -/
lemma ColumnView.fits_iff_of_whole {view : ColumnView} {pointer : Pointer}
    (hoffset : view.offset = 0) (hmask : view.nullMask = some pointer)
    (hrows : rows pointer.block = view.size) :
    view.Fits mem rows ↔ (0 < view.nullCount → view.size ≤ 16) := by
  simp [ColumnView.Fits, hoffset, hmask, hrows, mul_four_le_bitmask_iff]

/-- The location of the data counts the offset of the view in bytes. -/
lemma ColumnView.IsAllocated.data_inside_iff {view : ColumnView}
    (h : view.IsAllocated mem allocated rows) {bytes : Nat}
    (hbytes : dataBytes mem view = .ok bytes) :
    (0 < bytes → IsInside allocated
        (view.head.map fun head => ⟨head.block, head.offset + view.offset⟩, bytes)) ↔
      (view.type.id.sizeOf = none → dataBytes mem view ≠ .ok 0 → view.offset = 0) := by
  rcases Nat.eq_zero_or_pos bytes with rfl | hpos
  · simp [hbytes]
  obtain ⟨block, hhead, hle, hsize⟩ := h.data bytes hbytes hpos
  have hinside : IsInside allocated
      (view.head.map fun head => ⟨head.block, head.offset + view.offset⟩, bytes) ↔
        view.offset + bytes ≤ allocated block := by
    simp [IsInside, hhead]
  simp only [hpos, true_imp_iff, hinside, hsize, hbytes]
  cases hwidth : view.type.id.sizeOf with
  | none =>
    have hzero : view.offset + bytes ≤ bytes ↔ view.offset = 0 := by omega
    simpa [Nat.ne_of_gt hpos] using hzero
  | some width =>
    rw [dataBytes, hwidth] at hbytes
    obtain rfl := Except.ok.inj hbytes
    have hoffset := Nat.le_mul_of_pos_right view.offset (Nat.pos_of_mul_pos_left hpos)
    have hmul := Nat.mul_le_mul_right width hle
    rw [Nat.add_mul] at hmul
    refine iff_of_true ?_ nofun
    simp only [Option.map_some, Option.getD_some]
    omega

mutual

lemma remoteReads_inside_iff : ∀ (view : ColumnView) {column : ProtoColumn},
    view.Forall (·.IsAllocated mem allocated rows) → toProto mem view = .ok column →
      ((∀ read ∈ remoteReads column, IsInside allocated read) ↔ view.Forall (·.Fits mem rows))
  | ⟨type, size, offset, nullCount, head, nullMask, children⟩, column,
    ⟨halloc, hchildren⟩, hproto => by
    rw [toProto] at hproto
    obtain ⟨bytes, hbytes, hproto⟩ := bind_eq_ok hproto
    obtain ⟨columns, hcolumns, hproto⟩ := bind_eq_ok hproto
    cases hproto
    have hmask : (0 < nullCount → IsInside allocated (nullMask, size * 4)) ↔
        (0 < nullCount → ∀ pointer ∈ nullMask,
          size * 4 ≤ bitmaskAllocationSizeBytes (rows pointer.block)) := by
      refine forall_congr' fun hpos => ?_
      obtain ⟨block, rfl, -, hsize⟩ := halloc.nullMask hpos
      simp [IsInside, hsize]
    have hdata := halloc.data_inside_iff hbytes
    have hall := readsAll_inside_iff children hchildren hcolumns
    have hif : ∀ (n : Nat) read,
        (∀ read' ∈ if n > 0 then [read] else [], IsInside allocated read') ↔
        (0 < n → IsInside allocated read) := by
      intro n read
      split_ifs with hpos <;> simp [hpos]
    simp only [remoteReads, ColumnView.Forall, ColumnView.Fits, forall_mem_append, hif, hall,
      ← hmask, ← hdata]
    tauto

lemma readsAll_inside_iff : ∀ (views : List ColumnView) {columns : List ProtoColumn},
    ColumnView.ForallAll (·.IsAllocated mem allocated rows) views →
      toProtoAll mem views = .ok columns →
      ((∀ read ∈ remoteReadsAll columns, IsInside allocated read) ↔
        ColumnView.ForallAll (·.Fits mem rows) views)
  | [], columns, _, hproto => by
    cases hproto
    simp [remoteReadsAll, ColumnView.ForallAll]
  | view :: views, columns, ⟨hview, hviews⟩, hproto => by
    rw [toProtoAll] at hproto
    obtain ⟨column, hcolumn, hproto⟩ := bind_eq_ok hproto
    obtain ⟨rest, hrest, hproto⟩ := bind_eq_ok hproto
    cases hproto
    simp only [remoteReadsAll, ColumnView.ForallAll, forall_mem_append,
      remoteReads_inside_iff view hview hcolumn, readsAll_inside_iff views hviews hrest]

end

/-- The copies of a table are inside of their allocations if and only if all null masks and columns
of strings fit, at every level of nesting. -/
theorem migrateTable_reads_inside_iff {table : List ColumnView} {message : ProtoTable}
    (halloc : ColumnView.ForallAll (·.IsAllocated mem allocated rows) table)
    (hmessage : toProtoTable mem table = .ok message) :
    (∀ read ∈ remoteReadsAll message.columns, IsInside allocated read) ↔
      ColumnView.ForallAll (·.Fits mem rows) table := by
  obtain ⟨columns, hcolumns, hmessage⟩ := bind_eq_ok hmessage
  cases hmessage
  exact readsAll_inside_iff table halloc hcolumns

/-- A column of integers with a NULL. -/
def integersWithNull (n : Nat) : ColumnView :=
  ⟨.ofId .int64, n, 0, 1, some ⟨0, 0⟩, some ⟨1, 0⟩, []⟩

def integerBuffers (n block : Nat) : Nat :=
  if block = 0 then n * 8 else bitmaskAllocationSizeBytes n

lemma withNull_isAllocated (n : Nat) : ColumnView.ForallAll
    (·.IsAllocated (fun _ _ => 0) (integerBuffers n) fun _ => n) [integersWithNull n] := by
  have hle : 0 + n ≤ n := by simp
  exact ⟨⟨⟨fun _ => ⟨1, rfl, hle, rfl⟩, fun _ _ _ => ⟨0, rfl, hle, rfl⟩⟩, trivial⟩, trivial⟩

theorem sixteen_rows_inside :
    ∃ message, toProtoTable (fun _ _ => 0) [integersWithNull 16] = .ok message ∧
    ∀ read ∈ remoteReadsAll message.columns, IsInside (integerBuffers 16) read :=
  ⟨_, rfl, (migrateTable_reads_inside_iff (withNull_isAllocated 16) rfl).2
    ⟨⟨(ColumnView.fits_iff_of_whole rfl rfl rfl).2 fun _ => Nat.le_refl 16, trivial⟩, trivial⟩⟩

/-- Of the mask of 17 rows, 68 bytes are read, and it has 64. -/
theorem seventeen_rows_outside : ∃ message,
    ColumnView.ForallAll (·.IsAllocated (fun _ _ => 0) (integerBuffers 17) fun _ => 17)
      [integersWithNull 17] ∧ toProtoTable (fun _ _ => 0) [integersWithNull 17] = .ok message ∧
    (some ⟨1, 0⟩, 68) ∈ remoteReadsAll message.columns ∧
    ¬ IsInside (integerBuffers 17) (some ⟨1, 0⟩, 68) := by
  refine ⟨_, withNull_isAllocated 17, rfl, by decide, ?_⟩
  rintro ⟨pointer, hpointer, hle⟩
  cases hpointer
  revert hle
  decide

end Gqe.TaskMigration
