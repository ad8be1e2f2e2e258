import Gqe.TaskMigration.Basic
import Mathlib.Data.Nat.Bitwise

/-!
# Migration of slices

The result of a task may be a view of some rows of the columns of another table. The message has the
address of the data moved by the offset of the view in bytes, and the address of the null mask as it
is. What is copied are the rows of the view only if its elements are single bytes without NULLs.
-/

namespace Gqe.TaskMigration

open Fallible List ColumnView Option

/-! ### Slices -/

/-- The rows of a slice of a column of fixed width that is not a column of decimals. -/
structure Slice where
  type : ColumnType
  width : Nat
  sizeOf_eq : type.id.sizeOf = some width
  isFixedPoint_eq : type.id.isFixedPoint = false
  offset : Nat
  offset_pos : 0 < offset
  rows : List (Option (List UInt8))
  length_eq : ∀ bytes, some bytes ∈ rows → bytes.length = width

def valueOf : Option (List UInt8) → Value
  | some bytes => .bytes bytes
  | none => .null

lemma valueOf_injective : Function.Injective valueOf := by
  intro row row' h
  cases row <;> cases row' <;> simp_all [valueOf]

/-- The rows of the slice as those of a column. -/
def Slice.values (slice : Slice) : List Value := slice.rows.map valueOf

/-- The view has the rows of the slice. -/
structure ColumnView.Shows (mem : Memory) (view : ColumnView) (slice : Slice) : Prop where
  type_eq : view.type = slice.type
  size_eq : view.size = slice.rows.length
  offset_eq : view.offset = slice.offset
  nullCount_eq : view.nullCount = slice.rows.count none
  children_eq : view.children = []
  rows_eq : (view.shown mem).rows = slice.values

/-! ### What is rebuilt -/

/-- The column that is rebuilt from a view with elements of a width. -/
def rebuilt (mem : Memory) (view : ColumnView) : Column where
  type := .ofId view.type.id
  size := view.size
  data := migrateBuffer mem (view.head.map fun head => ⟨head.block, head.offset + view.offset⟩)
    (view.size * view.type.id.sizeOf.getD 0)
  nullMask := if view.nullCount > 0 then migrateBuffer mem view.nullMask (view.size * 4) else []
  nullCount := view.nullCount
  children := []

lemma fromProto_rebuilt {mem : Memory} {view : ColumnView} {slice : Slice}
    (h : view.Shows mem slice) :
    ∃ m, toProto mem view = .ok m ∧ fromProto mem m = .ok (rebuilt mem view) := by
  obtain ⟨type, size, offset, nullCount, head, nullMask, children⟩ := view
  obtain rfl : children = [] := h.children_eq
  have htype : type = slice.type := h.type_eq
  have hsz : type.id.sizeOf = some slice.width := by rw [htype, slice.sizeOf_eq]
  have hbytes : dataBytes mem ⟨type, size, offset, nullCount, head, nullMask, []⟩ =
      .ok (size * slice.width) := by
    simp [dataBytes, hsz]
  refine ⟨_, by rw [toProto, hbytes, toProtoAll]; rfl, ?_⟩
  rw [fromProto, fromProtoAll, fromProto_toProtoType, rebuilt]
  simp [hsz]

lemma migrateTable_eq {mem : Memory} {views : List ColumnView} {slices : List Slice}
    (h : List.Forall₂ (ColumnView.Shows mem) views slices) :
    migrateTable mem views = .ok (views.map (rebuilt mem)) := by
  have hall : ∃ ms, toProtoAll mem views = .ok ms ∧
      fromProtoAll mem ms = .ok (views.map (rebuilt mem)) := by
    induction h with
    | nil => exact ⟨[], rfl, rfl⟩
    | cons hview _ ih =>
      obtain ⟨m, hm, hm'⟩ := fromProto_rebuilt hview
      obtain ⟨ms, hms, hms'⟩ := ih
      exact ⟨m :: ms, by rw [toProtoAll, hm, hms]; rfl, by rw [fromProtoAll, hm', hms']; rfl⟩
  obtain ⟨ms, hms, hms'⟩ := hall
  rw [migrateTable, toProtoTable, hms]
  exact hms'

variable {id : TypeId} {width : Nat}

lemma sizeOf_pos (h : id.sizeOf = some width) : 0 < width := by
  cases id <;> cases h <;> decide

lemma valueAt_of_sizeOf (h : id.sizeOf = some width) (data : Nat → UInt8)
    (children : List (List Value)) (i : Nat) :
    valueAt id data children i = .bytes (bytesFrom data (i * width) width) := by
  cases id <;> cases h <;> rfl

lemma getElem?_rowsOf (h : id.sizeOf = some width) (data : Nat → UInt8)
    (children : List (List Value)) (offset : Nat) (validity : List Bool) (i : Nat) :
    (rowsOf id data children offset validity)[i]? = validity[i]?.map fun valid =>
        if valid then .bytes (bytesFrom data ((offset + i) * width) width) else .null := by
  simp [rowsOf, valueAt_of_sizeOf h]

lemma getElem?_validityOf (mask : Option (Nat → UInt8)) (offset size i : Nat) :
    (validityOf mask offset size)[i]? =
      if i < size then some (mask.elim true fun mask => bitAt mask (offset + i)) else none := by
  rw [validityOf, getElem?_map]
  split
  · next hi =>
    rw [getElem?_range hi]
    cases mask <;> rfl
  · next hi =>
    rw [getElem?_eq_none (by simpa using hi)]
    rfl

section Rows

variable {mem : Memory} {view : ColumnView} {slice : Slice} {i : Nat}

lemma getElem?_rows_shown (h : view.Shows mem slice) (hi : i < view.size) :
    (view.shown mem).rows[i]? = some
      (if view.nullMask.elim true fun mask => bitAt (mem.byteAt (some mask)) (view.offset + i)
        then .bytes (bytesFrom (mem.byteAt view.head) ((view.offset + i) * slice.width) slice.width)
        else .null) := by
  rw [rows_shown, h.type_eq, getElem?_rowsOf slice.sizeOf_eq, validity,
    getElem?_validityOf, if_pos hi]
  cases view.nullMask <;> rfl

/-- The data of the column that is rebuilt starts as many bytes after the data of the parent as
there are rows before the view. -/
lemma bytesFrom_data_rebuilt (h : view.Shows mem slice) (hi : i < view.size) :
    bytesFrom (byteOf (rebuilt mem view).data) (i * slice.width) slice.width =
      bytesFrom (fun k => mem.byteAt view.head (view.offset + k)) (i * slice.width)
        slice.width := by
  have hsz : view.type.id.sizeOf = some slice.width := by rw [h.type_eq, slice.sizeOf_eq]
  refine map_congr_left fun k hk => ?_
  have hk' : k < slice.width := mem_range.1 hk
  have hlt : i * slice.width + k < view.size * slice.width := by
    have := Nat.mul_le_mul_right slice.width (Nat.succ_le_of_lt hi)
    rw [Nat.succ_mul] at this
    omega
  rw [rebuilt, hsz, getD_some, byteOf_migrateBuffer hlt]
  cases view.head with
  | none => rfl
  | some head => simp [Memory.byteAt, Nat.add_assoc]

/-- The validity of the column that is rebuilt is that of the first rows of the parent. -/
lemma getElem?_validity_rebuilt (hi : i < view.size) : (rebuilt mem view).validity[i]? =
      some (decide (view.nullCount > 0 → bitAt (mem.byteAt view.nullMask) i)) := by
  have hi' : i < (rebuilt mem view).size := hi
  rw [Column.validity, getElem?_validityOf, if_pos hi', Nat.zero_add]
  by_cases hnulls : view.nullCount > 0
  · have hmask : migrateBuffer mem view.nullMask (view.size * 4) ≠ [] := by
      simp [migrateBuffer]
      omega
    have hbyte : i / 8 < view.size * 4 := by omega
    simp [rebuilt, hnulls, if_neg hmask, bitAt, byteOf_migrateBuffer hbyte]
  · simp [rebuilt, hnulls]

lemma getElem?_rows_rebuilt (h : view.Shows mem slice) (hi : i < view.size) :
    (rebuilt mem view).shown.rows[i]? = some
      (if view.nullCount > 0 → bitAt (mem.byteAt view.nullMask) i
        then .bytes (bytesFrom (fun k => mem.byteAt view.head (view.offset + k)) (i * slice.width)
          slice.width)
        else .null) := by
  have hsz : (rebuilt mem view).type.id.sizeOf = some slice.width := by
    rw [rebuilt, ColumnType.ofId, h.type_eq, slice.sizeOf_eq]
  rw [Column.rows_shown, getElem?_rowsOf hsz, getElem?_validity_rebuilt hi, map_some,
    Nat.zero_add, bytesFrom_data_rebuilt h hi]
  simp only [decide_eq_true_eq]

lemma length_rows_rebuilt (mem : Memory) (view : ColumnView) :
    (rebuilt mem view).shown.rows.length = view.size := by
  rw [Column.rows_shown, rowsOf, length_mapIdx, Column.validity, length_validityOf]
  rfl

/-- Elements of one byte without NULLs are found where they are copied from. -/
lemma rows_rebuilt_eq (h : view.Shows mem slice)
    (hslice : slice.rows = [] ∨ slice.width = 1 ∧ none ∉ slice.rows) :
    (rebuilt mem view).shown.rows = slice.values := by
  rcases hslice with hemp | ⟨hwidth, hvalid⟩
  · have hlen := length_rows_rebuilt mem view
    rw [h.size_eq, hemp] at hlen
    rw [length_eq_zero_iff.1 hlen, Slice.values, hemp, map_nil]
  · have hnulls : view.nullCount = 0 := by rw [h.nullCount_eq, count_eq_zero.2 hvalid]
    refine ext_getElem (by simp [length_rows_rebuilt, h.size_eq, Slice.values])
      fun i hi hi' => ?_
    rw [length_rows_rebuilt] at hi
    have hrow := getElem?_rows_shown h hi
    rw [h.rows_eq, getElem?_eq_getElem hi'] at hrow
    have hrebuilt := getElem?_rows_rebuilt h hi
    rw [getElem?_eq_getElem (by rwa [length_rows_rebuilt])] at hrebuilt
    rw [some.inj hrebuilt, if_pos (by omega)]
    -- the row of the slice is not NULL, so it is what the view has there
    have hsome : slice.values[i] ≠ .null := by
      intro hnull
      have hi'' : i < slice.rows.length := by simpa [Slice.values] using hi'
      have hnone : valueOf slice.rows[i] = valueOf none := by
        simp only [Slice.values, getElem_map] at hnull
        exact hnull
      exact hvalid (valueOf_injective hnone ▸ getElem_mem hi'')
    rw [some.inj hrow] at hsome ⊢
    split at hsome
    · rw [if_pos (by assumption), hwidth]
      simp [bytesFrom]
    · exact absurd rfl hsome

end Rows

/-! ### Parents that are not seen through the view

What precedes the view in the buffers of its parent is not a matter of the view. Here the bytes
before it differ from the first byte of its first row, and the bits before it from its first bit. -/

namespace Slice

def firstRow (slice : Slice) : Option (List UInt8) := slice.rows.getD 0 none

def dataByte (slice : Slice) (p : Nat) : UInt8 :=
  if p < slice.offset * slice.width then (slice.firstRow.getD []).getD 0 0 + 1
  else ((slice.rows.getD (p / slice.width - slice.offset) none).getD []).getD (p % slice.width) 0

def isValid (slice : Slice) (i : Nat) : Bool :=
  if i < slice.offset then !slice.firstRow.isSome
  else (slice.rows.getD (i - slice.offset) none).isSome

def maskByte (slice : Slice) (p : Nat) : UInt8 :=
  .ofNat (Nat.ofBits fun b : Fin 8 => slice.isValid (8 * p + b))

lemma bitAt_maskByte (slice : Slice) (i : Nat) : bitAt slice.maskByte i = slice.isValid i := by
  have hlt : Nat.ofBits (fun b : Fin 8 => slice.isValid (8 * (i / 8) + b)) < 2 ^ 8 :=
    Nat.ofBits_lt_two_pow _
  have hi : 8 * (i / 8) + i % 8 = i := Nat.div_add_mod i 8
  rw [bitAt, maskByte, UInt8.toNat_ofNat', Nat.mod_eq_of_lt hlt,
    Nat.testBit_ofBits_lt _ _ (Nat.mod_lt i (by decide)), hi]

def memory (slices : List Slice) : Memory := fun block p =>
  match slices[block / 2]? with
  | some slice => if block % 2 = 0 then slice.dataByte p else slice.maskByte p
  | none => 0

def view (slice : Slice) (index : Nat) : ColumnView where
  type := slice.type
  size := slice.rows.length
  offset := slice.offset
  nullCount := slice.rows.count none
  head := some ⟨2 * index, 0⟩
  nullMask := some ⟨2 * index + 1, 0⟩
  children := []

variable {slices : List Slice} {slice : Slice} {index : Nat}

lemma byteAt_head (h : slices[index]? = some slice) (p : Nat) :
    (memory slices).byteAt (slice.view index).head p = slice.dataByte p := by
  simp [view, Memory.byteAt, memory, h]

lemma byteAt_nullMask (h : slices[index]? = some slice) :
    (memory slices).byteAt (slice.view index).nullMask = slice.maskByte := by
  have hdiv : (2 * index + 1) / 2 = index := by omega
  funext p
  simp [view, Memory.byteAt, memory, hdiv, h]

lemma width_pos (slice : Slice) : 0 < slice.width :=
  sizeOf_pos slice.sizeOf_eq

/-- The data from the offset on is that of the rows. -/
lemma bytesFrom_dataByte {i : Nat} {bytes : List UInt8}
    (hrow : slice.rows[i]? = some (some bytes)) :
    bytesFrom slice.dataByte ((slice.offset + i) * slice.width) slice.width = bytes := by
  have hlen := slice.length_eq bytes (mem_of_getElem? hrow)
  refine ext_getElem (by simp [bytesFrom, hlen]) fun k hk hk' => ?_
  have hk'' : k < slice.width := by omega
  have hle : ¬(slice.offset + i) * slice.width + k < slice.offset * slice.width := by
    rw [Nat.add_mul]
    omega
  have hdiv : ((slice.offset + i) * slice.width + k) / slice.width = slice.offset + i := by
    rw [Nat.add_comm, Nat.add_mul_div_right _ _ slice.width_pos,
      Nat.div_eq_of_lt hk'', Nat.zero_add]
  have hmod : ((slice.offset + i) * slice.width + k) % slice.width = k := by
    rw [Nat.add_comm, Nat.add_mul_mod_self_right, Nat.mod_eq_of_lt hk'']
  simp only [bytesFrom, getElem_map, getElem_range, dataByte, if_neg hle, hdiv, hmod,
    Nat.add_sub_cancel_left, getD_eq_getElem?_getD, hrow, getD_some, getElem?_eq_getElem hk']

/-- The view of the parent has the rows of the slice. -/
lemma shows_view (h : slices[index]? = some slice) :
    (slice.view index).Shows (memory slices) slice where
  type_eq := rfl
  size_eq := rfl
  offset_eq := rfl
  nullCount_eq := rfl
  children_eq := rfl
  rows_eq := by
    have hmask : ((slice.view index).nullMask.map fun mask =>
        (memory slices).byteAt (some mask)) = some slice.maskByte := by
      rw [← byteAt_nullMask h]
      rfl
    have hsz : (slice.view index).type.id.sizeOf = some slice.width := slice.sizeOf_eq
    rw [rows_shown, validity, hmask, funext (byteAt_head h)]
    refine ext_getElem? fun i => ?_
    rw [getElem?_rowsOf hsz, getElem?_validityOf, values, getElem?_map]
    simp only [view, elim_some, bitAt_maskByte, isValid, Nat.not_lt.2 (Nat.le_add_right _ _),
      if_false, Nat.add_sub_cancel_left, getD_eq_getElem?_getD]
    split
    · next hi =>
      rw [getElem?_eq_getElem hi]
      cases hrow : slice.rows[i] with
      | none => rfl
      | some bytes =>
        simp [valueOf, bytesFrom_dataByte (by rw [getElem?_eq_getElem hi, hrow])]
    · next hi =>
      rw [getElem?_eq_none (by omega)]
      rfl

/-- If there are NULLs, the first row takes its validity from the first bit of the mask; if there
are none and elements have several bytes, it takes its first byte from before the view. -/
lemma rows_rebuilt_view_ne (h : slices[index]? = some slice) (hrows : slice.rows ≠ [])
    (hslice : slice.width ≠ 1 ∨ none ∈ slice.rows) :
    (rebuilt (memory slices) (slice.view index)).shown.rows ≠ slice.values := by
  intro heq
  obtain ⟨row, rows, hcons⟩ := exists_cons_of_ne_nil hrows
  have hfst : slice.firstRow = row := by simp [firstRow, hcons]
  have hrow := getElem?_rows_rebuilt (shows_view h) (i := 0) (by simp [view, hcons])
  have hvalue : slice.values[0]? = some (valueOf row) := by simp [values, hcons]
  have hbit : bitAt ((memory slices).byteAt (slice.view index).nullMask) 0 = !row.isSome := by
    rw [byteAt_nullMask h, bitAt_maskByte, isValid, if_pos slice.offset_pos, hfst]
  rw [heq, hvalue, hbit] at hrow
  have hrow := some.inj hrow
  cases row with
  | none =>
    -- the bit says that the row is valid
    simp [valueOf] at hrow
  | some bytes =>
    by_cases hnulls : none ∈ slice.rows
    · have hcnt : (slice.view index).nullCount > 0 := count_pos_iff.2 hnulls
      simp [valueOf, hcnt] at hrow
    · have hwidth : slice.width ≠ 1 := by simpa [hnulls] using hslice
      have hcnt : (slice.view index).nullCount = 0 := count_eq_zero.2 hnulls
      have hlen := slice.length_eq bytes (by simp [hcons])
      have hpos := slice.width_pos
      have hbefore : slice.offset < slice.offset * slice.width := by
        have := Nat.mul_le_mul_left slice.offset (show 2 ≤ slice.width by omega)
        have := slice.offset_pos
        omega
      simp only [valueOf, hcnt, Nat.lt_irrefl, false_imp_iff, if_true,
        Value.bytes.injEq, byteAt_head h] at hrow
      obtain ⟨byte, bytes', rfl⟩ := exists_cons_of_length_pos (by omega : 0 < bytes.length)
      have hbyte := congrArg (·[0]?) hrow
      simp [bytesFrom, hpos, view, dataByte, hbefore, hfst] at hbyte

end Slice

/-! ### Tables -/

/-- The rows of views are migrated, whatever else their parents have, if and only if every column
has no rows, or elements of one byte and no NULLs. -/
theorem migrateTable_slices_iff (slices : List Slice) :
    (∀ mem views, List.Forall₂ (ColumnView.Shows mem) views slices →
      ∃ columns, migrateTable mem views = .ok columns ∧
        columns.map (fun column => column.shown.rows) = slices.map Slice.values) ↔
      ∀ slice ∈ slices, slice.rows = [] ∨ slice.width = 1 ∧ none ∉ slice.rows := by
  constructor
  · intro h slice hslice
    by_contra hbad
    obtain ⟨index, hindex⟩ := mem_iff_getElem?.1 hslice
    have hviews : List.Forall₂ (ColumnView.Shows (Slice.memory slices))
        (slices.mapIdx fun i slice => slice.view i) slices := by
      rw [forall₂_iff_get]
      refine ⟨by simp, fun i _ hi => ?_⟩
      simpa using Slice.shows_view (getElem?_eq_getElem hi)
    obtain ⟨columns, hcolumns, hrows⟩ := h _ _ hviews
    rw [migrateTable_eq hviews] at hcolumns
    obtain rfl := Except.ok.inj hcolumns
    have hrow := congrArg (·[index]?) hrows
    simp only [getElem?_map, getElem?_mapIdx, hindex, map_some, some.injEq] at hrow
    refine Slice.rows_rebuilt_view_ne hindex (fun hempty => hbad (.inl hempty)) ?_ hrow
    by_contra hgood
    rw [not_or, not_not] at hgood
    exact hbad (.inr hgood)
  · intro h mem views hviews
    refine ⟨_, migrateTable_eq hviews, ?_⟩
    induction hviews with
    | nil => rfl
    | cons hview _ ih =>
      obtain ⟨hslice, hslices⟩ := forall_mem_cons.1 h
      rw [map_cons, map_cons, map_cons, rows_rebuilt_eq hview hslice, ih hslices]

/-- The second and third rows of a column of INT32, both valid. -/
def intSlice : Slice where
  type := .ofId .int32
  width := 4
  sizeOf_eq := rfl
  isFixedPoint_eq := rfl
  offset := 1
  offset_pos := Nat.one_pos
  rows := [some [2, 0, 0, 0], some [3, 0, 0, 0]]
  length_eq := by simp

def intMemory : Memory := fun _ i => if i % 4 = 0 then .ofNat (i / 4 + 1) else 0

/-- The rows `2` and `3` of the column `1, 2, 3, 4` come back as parts of the numbers
around them. -/
theorem migrateTable_intSlice :
    (⟨.ofId .int32, 2, 1, 0, some ⟨0, 0⟩, none, []⟩ : ColumnView).Shows intMemory intSlice ∧
      (migrateTable intMemory [⟨.ofId .int32, 2, 1, 0, some ⟨0, 0⟩, none, []⟩]).map
          (map fun column => column.shown.rows) =
        .ok [[.bytes [0, 0, 0, 2], .bytes [0, 0, 0, 3]]] :=
  ⟨⟨rfl, rfl, rfl, rfl, rfl, rfl⟩, rfl⟩

end Gqe.TaskMigration
