import Gqe.TaskMigration.Basic

/-!
# Migration of whole columns

A column that starts at the first row of its buffers is rebuilt with the same rows on the other
rank, at every level of nesting. Its type loses the scale.
-/

namespace Gqe.TaskMigration

open Fallible List Shown Except

/-! ### Well-formed columns -/

/-- The column is not a slice, its number of NULLs is right, and if it has strings, their offsets
end with the largest one. -/
structure ColumnView.IsWhole (mem : Memory) (view : ColumnView) : Prop where
  offset_eq : view.offset = 0
  nullCount_eq : view.nullCount = (view.validity mem).count false
  offsets_le : view.type.id = .string → ∀ offsets ∈ view.children.head?, ∀ i < view.size,
    offsetAt (offsets.shown mem).rows (i + 1) ≤ offsetAt (offsets.shown mem).rows (offsets.size - 1)

mutual

def ColumnView.Whole (mem : Memory) : ColumnView → Prop
  | ⟨type, size, offset, nullCount, head, nullMask, children⟩ =>
    ColumnView.IsWhole mem ⟨type, size, offset, nullCount, head, nullMask, children⟩ ∧
      ColumnView.AllWhole mem children

def ColumnView.AllWhole (mem : Memory) : List ColumnView → Prop
  | [] => True
  | view :: views => view.Whole mem ∧ ColumnView.AllWhole mem views

end

mutual

/-- All decimals of the column, at any level, have the scale zero. -/
def ColumnView.Unscaled : ColumnView → Prop
  | ⟨type, _, _, _, _, _, children⟩ => type.scale = 0 ∧ ColumnView.AllUnscaled children

def ColumnView.AllUnscaled : List ColumnView → Prop
  | [] => True
  | view :: views => view.Unscaled ∧ ColumnView.AllUnscaled views

end

/-! ### What is left of a column -/

mutual

def Shown.withoutScales : Shown → Shown
  | ⟨type, nullCount, validity, rows, children⟩ =>
    ⟨.ofId type.id, nullCount, validity, rows, withoutScalesAll children⟩

def Shown.withoutScalesAll : List Shown → List Shown
  | [] => []
  | s :: ss => s.withoutScales :: withoutScalesAll ss

end

lemma Shown.rows_withoutScales : ∀ s : Shown, s.withoutScales.rows = s.rows
  | ⟨_, _, _, _, _⟩ => rfl

lemma Shown.map_rows_withoutScalesAll (ss : List Shown) :
    (withoutScalesAll ss).map rows = ss.map rows := by
  induction ss with
  | nil => rfl
  | cons s ss ih =>
    rw [withoutScalesAll, map_cons, map_cons, ih, rows_withoutScales]

mutual

lemma withoutScales_eq_iff (mem : Memory) : ∀ view : ColumnView,
    (view.shown mem).withoutScales = view.shown mem ↔ view.Unscaled
  | ⟨type, _, _, _, _, _, children⟩ => by
    have hchs := withoutScalesAll_eq_iff mem children
    simp [ColumnView.shown, withoutScales, ColumnView.Unscaled, ColumnType.ofId_id_eq_iff, hchs]

lemma withoutScalesAll_eq_iff (mem : Memory) : ∀ views : List ColumnView,
    withoutScalesAll (ColumnView.shownAll mem views) = ColumnView.shownAll mem views ↔
      ColumnView.AllUnscaled views
  | [] => by simp only [ColumnView.shownAll, withoutScalesAll, ColumnView.AllUnscaled]
  | view :: views => by
    have hview := withoutScales_eq_iff mem view
    have hviews := withoutScalesAll_eq_iff mem views
    simp [withoutScalesAll, ColumnView.AllUnscaled, hview, hviews]

end

/-! ### Buffers -/

/-- How many bytes of the data a row depends on. -/
def bytesUpTo (id : TypeId) (children : List (List Value)) (i : Nat) : Nat :=
  match id with
  | .string => offsetAt (children.getD 0 []) (i + 1)
  | .list | .struct => 0
  | id => (i + 1) * id.sizeOf.getD 0

variable {data data' : Nat → UInt8}

lemma bytesFrom_congr {start count : Nat} (h : ∀ k < start + count, data k = data' k) :
    bytesFrom data start count = bytesFrom data' start count := by
  refine map_congr_left fun k hk => h _ ?_
  have := mem_range.1 hk
  omega

variable {children : List (List Value)}

/-- A row does not depend on the bytes after those of its value. -/
lemma valueAt_congr {id : TypeId} {i : Nat} (h : ∀ k < bytesUpTo id children i, data k = data' k) :
    valueAt id data children i = valueAt id data' children i := by
  cases id with
  | string =>
    simp only [valueAt, Value.bytes.injEq]
    -- with decreasing offsets the string is empty and needs no byte
    by_cases hle : offsetAt (children.getD 0 []) i ≤ offsetAt (children.getD 0 []) (i + 1)
    · refine bytesFrom_congr fun k hk => h k ?_
      simp only [bytesUpTo]
      omega
    · have hzero : offsetAt (children.getD 0 []) (i + 1) - offsetAt (children.getD 0 []) i = 0 := by
        omega
      rw [hzero]
      rfl
  | list => rfl
  | struct => rfl
  | _ =>
    simp only [valueAt, Value.bytes.injEq]
    refine bytesFrom_congr fun k hk => h k ?_
    simp only [bytesUpTo]
    rw [Nat.add_mul]
    exact hk

lemma rowsOf_congr {id : TypeId} {validity : List Bool}
    (h : ∀ i < validity.length, ∀ k < bytesUpTo id children i, data k = data' k) :
    rowsOf id data children 0 validity = rowsOf id data' children 0 validity := by
  refine ext_getElem (by simp [rowsOf]) fun i hi _ => ?_
  simp only [rowsOf, length_mapIdx] at hi
  simp [rowsOf, valueAt_congr (h i hi)]

lemma bytesUpTo_le_dataBytes {mem : Memory} {view : ColumnView} (hwhole : view.IsWhole mem)
    {bytes i : Nat} (hbytes : dataBytes mem view = .ok bytes) (hi : i < view.size) :
    bytesUpTo view.type.id ((ColumnView.shownAll mem view.children).map rows) i ≤ bytes := by
  obtain ⟨⟨id, scale, hscale⟩, size, offset, nullCount, head, nullMask, children⟩ := view
  have hmul {width : Nat} : (i + 1) * width ≤ size * width := Nat.mul_le_mul_right width hi
  cases id with
  | string =>
    obtain rfl := ok.inj hbytes
    cases children with
    | nil => simp [bytesUpTo, offsetAt, Value.toOffset]
    | cons offsets children =>
      have hle := hwhole.offsets_le rfl offsets rfl i hi
      obtain ⟨n, rfl⟩ : ∃ n, size = n + 1 := ⟨size - 1, by simp at hi; omega⟩
      simpa [bytesUpTo, charsSize] using hle
  | list => exact Nat.zero_le _
  | struct => exact Nat.zero_le _
  | empty => simp [dataBytes, TypeId.sizeOf] at hbytes
  | dictionary32 => simp [dataBytes, TypeId.sizeOf] at hbytes
  | _ =>
    obtain rfl := ok.inj hbytes
    exact hmul

lemma eq_replicate_of_count_false {l : List Bool} (h : l.count false = 0) :
    l = replicate l.length true := by
  refine eq_replicate_length.2 fun b hb => ?_
  cases b with
  | true => rfl
  | false => exact absurd hb (count_eq_zero.1 h)

lemma validityOf_none (offset size : Nat) : validityOf none offset size = replicate size true := by
  simp [validityOf]

lemma validity_migrated {mem : Memory} {view : ColumnView} (hwhole : view.IsWhole mem) :
    validityOf
      (if (if view.nullCount > 0 then migrateBuffer mem view.nullMask (view.size * 4) else []) = []
        then none
        else some (byteOf
          (if view.nullCount > 0 then migrateBuffer mem view.nullMask (view.size * 4) else [])))
      0 view.size = view.validity mem := by
  have hcnt := hwhole.nullCount_eq
  by_cases hnulls : view.nullCount > 0
  · have hle : (view.validity mem).count false ≤ view.size := by
      simpa [ColumnView.validity] using
        count_le_length (l := view.validity mem)
    have hmask : migrateBuffer mem view.nullMask (view.size * 4) ≠ [] := by
      simp [migrateBuffer]
      omega
    obtain ⟨mask, hsome⟩ : ∃ mask, view.nullMask = some mask := by
      cases hview : view.nullMask with
      | some mask => exact ⟨mask, rfl⟩
      | none =>
        simp [ColumnView.validity, hview, validityOf_none, count_replicate] at hcnt
        omega
    rw [if_pos hnulls, if_neg hmask, ColumnView.validity, hsome, Option.map_some, hwhole.offset_eq]
    refine map_congr_left fun i hi => ?_
    have hbyte : (0 + i) / 8 < view.size * 4 := by
      have := mem_range.1 hi
      omega
    simp only [bitAt, byteOf_migrateBuffer hbyte]
  · rw [if_neg hnulls, if_pos rfl, validityOf_none]
    have hvalid := eq_replicate_of_count_false (l := view.validity mem) (by omega)
    rw [hvalid, ColumnView.validity, length_validityOf]

/-! ### Columns -/

mutual

/-- A whole column that is accepted is rebuilt as it was, up to the scales. -/
lemma fromProto_of_toProto (mem : Memory) : ∀ (view : ColumnView) (m : ProtoColumn),
    view.Whole mem → toProto mem view = .ok m →
      ∃ column, fromProto mem m = .ok column ∧ column.shown = (view.shown mem).withoutScales
  | ⟨type, size, offset, nullCount, head, nullMask, children⟩, _, hwhole, h => by
    obtain ⟨hview, hchs⟩ := hwhole
    rw [toProto] at h
    obtain ⟨bytes, hbytes, h⟩ := bind_eq_ok h
    obtain ⟨ms, hms, h⟩ := bind_eq_ok h
    obtain rfl := ok.inj h
    obtain ⟨columns, hcols, hshown⟩ := fromProtoAll_of_toProto mem children ms hchs hms
    refine ⟨_, by rw [fromProto, hcols, fromProto_toProtoType]; rfl, ?_⟩
    have hvalidity := validity_migrated hview
    have hoff : offset = 0 := hview.offset_eq
    simp only [Column.shown, Column.validity, hshown, ColumnView.shown, withoutScales,
      map_rows_withoutScalesAll, mk.injEq, true_and, and_true, ColumnType.ofId]
    refine ⟨hvalidity, ?_⟩
    rw [hvalidity, hoff]
    -- the copied bytes are those of the view, as far as its rows go
    refine rowsOf_congr fun i hi k hk => ?_
    have hi' : i < size := by simpa [ColumnView.validity] using hi
    have hle := bytesUpTo_le_dataBytes hview hbytes hi'
    rw [byteOf_migrateBuffer (Nat.lt_of_lt_of_le hk hle)]
    cases head <;> rfl

lemma fromProtoAll_of_toProto (mem : Memory) : ∀ (views : List ColumnView)
    (ms : List ProtoColumn), ColumnView.AllWhole mem views → toProtoAll mem views = .ok ms →
      ∃ columns, fromProtoAll mem ms = .ok columns ∧
        Column.shownAll columns = withoutScalesAll (ColumnView.shownAll mem views)
  | [], _, _, h => by
    obtain rfl := ok.inj h
    exact ⟨[], rfl, rfl⟩
  | view :: views, _, ⟨hview, hviews⟩, h => by
    rw [toProtoAll] at h
    obtain ⟨m, hm, h⟩ := bind_eq_ok h
    obtain ⟨ms, hms, h⟩ := bind_eq_ok h
    obtain rfl := ok.inj h
    obtain ⟨column, hcol, hshown⟩ := fromProto_of_toProto mem view m hview hm
    obtain ⟨columns, hcols, hshowns⟩ := fromProtoAll_of_toProto mem views ms hviews hms
    refine ⟨column :: columns, by rw [fromProtoAll, hcol, hcols]; rfl, ?_⟩
    rw [Column.shownAll, hshown, hshowns, ColumnView.shownAll, withoutScalesAll]

end

/-! ### Tables -/

/-- The table of a task is the same on the other rank, with the same types, numbers of NULLs,
validity and values, if and only if all decimals have the scale zero. -/
theorem migrateTable_eq_iff_allUnscaled (mem : Memory) (table : List ColumnView)
    (hwhole : ColumnView.AllWhole mem table) (haccepted : (toProtoTable mem table).isOk) :
    (∃ columns, migrateTable mem table = .ok columns ∧
      Column.shownAll columns = ColumnView.shownAll mem table) ↔ ColumnView.AllUnscaled table := by
  obtain ⟨ms, hms⟩ : ∃ ms, toProtoAll mem table = .ok ms := by
    cases h : toProtoAll mem table with
    | ok ms => exact ⟨ms, rfl⟩
    | error e =>
      rw [toProtoTable, h] at haccepted
      cases haccepted
  obtain ⟨columns, hcolumns, hshown⟩ := fromProtoAll_of_toProto mem table ms hwhole hms
  have hmigrate : migrateTable mem table = .ok columns := by
    rw [migrateTable, toProtoTable, hms]
    exact hcolumns
  rw [hmigrate, ← withoutScalesAll_eq_iff mem table, ← hshown]
  simp

def decimalColumn (scale : Int) : ColumnView where
  type := ⟨.decimal64, scale, nofun⟩
  size := 1
  offset := 0
  nullCount := 0
  head := some ⟨0, 0⟩
  nullMask := none
  children := []

lemma allWhole_decimalColumn (mem : Memory) (scale : Int) :
    ColumnView.AllWhole mem [decimalColumn scale] :=
  ⟨⟨⟨rfl, rfl, nofun⟩, trivial⟩, trivial⟩

/-- Three structs with a decimal number without decimal places. The second struct is NULL, and so is
its number. -/
def decimalStructs : ColumnView where
  type := .ofId .struct
  size := 3
  offset := 0
  nullCount := 1
  head := none
  nullMask := some ⟨1, 0⟩
  children := [⟨.ofId .decimal64, 3, 0, 1, some ⟨0, 0⟩, some ⟨1, 0⟩, []⟩]

def decimalBuffers : Memory := fun block i => if block = 0 then .ofNat i else 0b101

/-- Numbers without decimal places are rebuilt. -/
theorem migrateTable_decimal_unscaled :
    (decimalStructs.shown decimalBuffers).validity = [true, false, true] ∧
    ∃ columns, migrateTable decimalBuffers [decimalStructs] = .ok columns ∧
      Column.shownAll columns = ColumnView.shownAll decimalBuffers [decimalStructs] := by
  have hwhole : ColumnView.AllWhole decimalBuffers [decimalStructs] :=
    ⟨⟨⟨rfl, by decide, nofun⟩, ⟨⟨rfl, by decide, nofun⟩, trivial⟩, trivial⟩, trivial⟩
  exact ⟨by decide, (migrateTable_eq_iff_allUnscaled _ [decimalStructs] hwhole rfl).2
    ⟨⟨rfl, ⟨rfl, trivial⟩, trivial⟩, trivial⟩⟩

/-- A column of numbers with two decimal places is rebuilt as one of numbers without. -/
theorem migrateTable_decimal_scaled :
    ColumnView.AllWhole (fun _ i => .ofNat i) [decimalColumn (-2)] ∧
      (migrateTable (fun _ i => .ofNat i) [decimalColumn (-2)]).map
          (map fun column => (column.type.id, column.type.scale)) = .ok [(.decimal64, 0)] :=
  ⟨allWhole_decimalColumn _ (-2), rfl⟩

end Gqe.TaskMigration
