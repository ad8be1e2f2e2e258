import Gqe.Parquet.PartialFilter
import Mathlib.Algebra.Group.Int.Defs
import Mathlib.Algebra.Group.Nat.Defs
import Mathlib.Data.List.TakeWhile

/-!
# Hive-style paths

In a path like `/data/year=2024/month=-1/part.parquet` the directories name columns with their
values. The key of a column is searched for without regard to the directories, so that a directory
whose name only ends with the name of the column is taken for its directory, and a directory with a
negative value for none.
-/

namespace Gqe.Parquet

open Fallible List Prod Option

/-! ### Paths -/

/-- A character that stands for itself in a regular expression and does not end the name of a
column in a path. -/
def isNameChar (c : Char) : Bool := c ∉ "^$\\.*+?()[]\x7b\x7d|/=".toList

def ColumnName := {name : List Char // ∀ c ∈ name, isNameChar c}

namespace ColumnName

instance : DecidableEq ColumnName :=
  inferInstanceAs (DecidableEq {name : List Char // ∀ c ∈ name, isNameChar c})

lemma not_mem (name : ColumnName) {c : Char} (hc : isNameChar c = false) : c ∉ name.1 := by
  intro hmem
  have := name.2 c hmem
  rw [hc] at this
  cases this

lemma equals_not_mem (name : ColumnName) : '=' ∉ name.1 := name.not_mem (by decide)

lemma slash_not_mem (name : ColumnName) : '/' ∉ name.1 := name.not_mem (by decide)

end ColumnName

/-- The decimal digits of a value. -/
def textOf : Int → List Char
  | .ofNat n => Nat.toDigits 10 n
  | .negSucc n => '-' :: Nat.toDigits 10 (n + 1)

/-- The directories of a path from the first one that names a column on, and the file. -/
def textAfter (file : List Char) : List (ColumnName × Int) → List Char
  | [] => '/' :: file
  | (name, value) :: components =>
    '/' :: name.1 ++ '=' :: (textOf value ++ textAfter file components)

/-- A path with directories that name columns, each at most once. -/
structure HivePath where
  base : List Char
  base_plain : '=' ∉ base
  components : List (ColumnName × Int)
  nodup : (components.map fst).Nodup
  file : List Char
  file_plain : '=' ∉ file

namespace HivePath

def text (path : HivePath) : List Char := path.base ++ textAfter path.file path.components

/-- The value of the first directory whose name ends with the name of the column and whose value is
not negative. -/
def foundIn (column : ColumnName) (components : List (ColumnName × Int)) : Option Nat :=
  components.findSome? fun component =>
    if column.1 <:+ component.1.1 then
      match component.2 with
      | .ofNat n => some n
      | .negSucc _ => none
    else none

end HivePath

/-! ### The search -/

section Search

variable {name segment after : List Char}

lemma regexSearch_eq (name text : List Char) :
    regexSearch name text = (matchPrefix name text).or (regexSearch name text.tail) := by
  cases text with
  | nil => simp [regexSearch]
  | cons c text => rfl

section

variable (hname : '=' ∉ name) (hseg : '=' ∉ segment)
include hname hseg

/-- A name is matched up to an equals sign only if it is all that precedes the sign. -/
lemma isPrefixOf_segment :
    (name ++ ['=']).isPrefixOf (segment ++ '=' :: after) ↔ name = segment := by
  rw [ isPrefixOf_iff_prefix]
  induction name generalizing segment with
  | nil =>
    cases segment with
    | nil => simp
    | cons c segment =>
      have hne : '=' ≠ c := fun h => hseg (h ▸ mem_cons_self)
      simp [hne]
  | cons c name ih =>
    obtain ⟨hc, hname⟩ := ne_and_not_mem_of_not_mem_cons hname
    cases segment with
    | nil => simp [hc.symm]
    | cons d segment =>
      have hseg' : '=' ∉ segment := fun h => hseg (mem_cons_of_mem _ h)
      simp [ih hname hseg']

lemma matchPrefix_segment :
    matchPrefix name (segment ++ '=' :: after) =
      if name = segment ∧ after.takeWhile isWord ≠ [] then some (after.takeWhile isWord)
      else none := by
  rw [matchPrefix]
  by_cases hpre : name = segment
  · rw [hpre]
    by_cases hvalue : after.takeWhile isWord = [] <;> simp [hvalue]
  · rw [if_neg (mt (isPrefixOf_segment hname hseg).1 hpre), if_neg fun h => hpre h.1]

/-- The search goes on after an equals sign unless the name precedes it and a value follows. -/
lemma regexSearch_segment :
    regexSearch name (segment ++ '=' :: after) =
      if name <:+ segment ∧ after.takeWhile isWord ≠ [] then some (after.takeWhile isWord)
      else regexSearch name after := by
  induction segment with
  | nil =>
    rw [regexSearch_eq, matchPrefix_segment hname hseg]
    simp only [suffix_nil]
    split <;> simp
  | cons c segment ih =>
    have hseg' : '=' ∉ segment := fun h => hseg (mem_cons_of_mem _ h)
    rw [regexSearch_eq, matchPrefix_segment hname hseg, cons_append, tail_cons, ih hseg']
    simp only [suffix_cons_iff]
    by_cases heq : name = c :: segment <;> by_cases hvalue : after.takeWhile isWord = [] <;>
      simp [heq, hvalue]

end

lemma regexSearch_of_not_mem {text : List Char} (htext : '=' ∉ text) :
    regexSearch name text = none := by
  have hmatch : ∀ {text : List Char}, '=' ∉ text → matchPrefix name text = none := by
    intro text htext
    rw [matchPrefix, if_neg]
    intro hpre
    exact htext (( isPrefixOf_iff_prefix.1 hpre).subset (by simp))
  induction text with
  | nil => rw [regexSearch, hmatch htext]
  | cons c text ih =>
    rw [regexSearch, hmatch htext, ih fun h => htext (mem_cons_of_mem _ h)]
    rfl

end Search

/-! ### Values in paths -/

variable {n : Nat}

lemma isDigit_of_mem {c : Char} (h : c ∈ Nat.toDigits 10 n) : c.isDigit :=
  Nat.isDigit_of_mem_toDigits (by decide) (by decide) h

lemma exists_textAfter_eq (file : List Char) (components : List (ColumnName × Int)) :
    ∃ text, textAfter file components = '/' :: text := by
  cases components with
  | nil => exact ⟨file, rfl⟩
  | cons component components => exact ⟨_, rfl⟩

/-- What is matched after the equals sign are all digits of the value, and nothing if a sign
precedes them. -/
lemma takeWhile_isWord_textOf (value : Int) (file : List Char)
    (components : List (ColumnName × Int)) :
    (textOf value ++ textAfter file components).takeWhile isWord = match value with
      | .ofNat n => Nat.toDigits 10 n
      | .negSucc _ => [] := by
  obtain ⟨text, htext⟩ := exists_textAfter_eq file components
  have hslash : isWord '/' = false := by decide
  cases value with
  | ofNat n =>
    have hdig : ∀ c ∈ Nat.toDigits 10 n, isWord c := fun c hc => by
      simp [isWord, Char.isAlphanum, isDigit_of_mem hc]
    simp [textOf, htext, takeWhile_append_of_pos hdig, hslash]
  | negSucc n => rfl

lemma suffix_append_slash_iff {name pre rest : List Char} (hname : '/' ∉ name) :
    name <:+ pre ++ '/' :: rest ↔ name <:+ rest := by
  induction pre with
  | nil =>
    rw [nil_append, suffix_cons_iff]
    refine or_iff_right fun h => hname (h ▸ mem_cons_self)
  | cons c pre ih =>
    rw [cons_append, suffix_cons_iff, ih]
    refine or_iff_right fun h => hname (h ▸ ?_)
    simp

lemma equals_not_mem_textOf (value : Int) : '=' ∉ textOf value := by
  have hdig : ∀ n : Nat, '=' ∉ Nat.toDigits 10 n := by
    intro n h
    have := isDigit_of_mem h
    revert this
    decide
  cases value with
  | ofNat n => exact hdig n
  | negSucc n => simp [textOf, hdig]

/-- The search finds the digits of the first directory that may be taken for the one of the
column. -/
lemma regexSearch_textAfter (column : ColumnName) {file : List Char} (hfile : '=' ∉ file)
    (components : List (ColumnName × Int)) {pre : List Char} (hpre : '=' ∉ pre) :
    regexSearch column.1 (pre ++ textAfter file components) =
      (HivePath.foundIn column components).map (Nat.toDigits 10) := by
  induction components generalizing pre with
  | nil =>
    refine regexSearch_of_not_mem ?_
    simp [textAfter, hpre, hfile]
  | cons component components ih =>
    obtain ⟨name, value⟩ := component
    have htext : pre ++ textAfter file ((name, value) :: components) =
        (pre ++ '/' :: name.1) ++ '=' :: (textOf value ++ textAfter file components) := by
      simp [textAfter]
    have hseg : '=' ∉ pre ++ '/' :: name.1 := by simp [hpre, name.equals_not_mem]
    rw [htext, regexSearch_segment column.equals_not_mem hseg,
      ih (equals_not_mem_textOf value), takeWhile_isWord_textOf]
    simp only [suffix_append_slash_iff column.slash_not_mem, HivePath.foundIn]
    by_cases hsuf : column.1 <:+ name.1
    · cases value with
      | ofNat n => simp [hsuf]
      | negSucc n => simp
    · simp [hsuf]

lemma takeWhile_isDigit_toDigits (n : Nat) :
    (Nat.toDigits 10 n).takeWhile Char.isDigit = Nat.toDigits 10 n :=
  takeWhile_eq_self_iff.2 fun _ => isDigit_of_mem

/-- How a file is classified by its path. -/
lemma classify_text (column : ColumnName) (path : HivePath) : classify column.1 path.text =
      match HivePath.foundIn column path.components with
      | none => .ok .nonPartitioned
      | some n => if n < 2 ^ 63 then .ok (.partitioned n) else .error .outOfRange := by
  rw [classify, HivePath.text, regexSearch_textAfter column path.file_plain _ path.base_plain]
  cases HivePath.foundIn column path.components with
  | none => rfl
  | some n =>
    simp only [map_some, stoll, takeWhile_isDigit_toDigits, Nat.toDigits_ne_nil,
      Nat.ofDigitChars_ten_toDigits]
    by_cases hlt : n < 2 ^ 63 <;> simp only [hlt, if_true, if_false]

/-! ### The files that are read -/

/-- The kind of a file with a key that fits into 64 bits. -/
def HivePath.kind (column : ColumnName) (path : HivePath) : FileKind :=
  match foundIn column path.components with
  | none => .nonPartitioned
  | some n => .partitioned n

variable {i : Nat} {kinds : List FileKind}

lemma mem_needlesOf {key : Int} :
    (i, key) ∈ needlesOf kinds ↔ kinds[i]? = some (.partitioned key) := by
  simp only [needlesOf, mem_filterMap, Prod.exists, mem_zipIdx_iff_getElem?]
  constructor
  · rintro ⟨kind, j, hkind, h⟩
    cases kind with
    | partitioned key' =>
      obtain ⟨rfl, rfl⟩ : j = i ∧ key' = key := by simpa using h
      exact hkind
    | nullPartition => cases h
    | nonPartitioned => cases h
  · intro h
    exact ⟨_, i, h, rfl⟩

lemma mem_nonPartitionedOf : i ∈ nonPartitionedOf kinds ↔ kinds[i]? = some .nonPartitioned := by
  simp only [nonPartitionedOf, mem_filterMap, Prod.exists, mem_zipIdx_iff_getElem?]
  constructor
  · rintro ⟨kind, j, hkind, h⟩
    obtain ⟨rfl, rfl⟩ : kind = .nonPartitioned ∧ j = i := by simpa using h
    exact hkind
  · intro h
    exact ⟨_, i, h, rfl⟩

/-- A column of integers: the values are those of a signed or an unsigned type of at most
64 bits. -/
structure HaystackColumn.IsIntegers (haystack : HaystackColumn) : Prop where
  isIntegral : haystack.type.isIntegral
  ne_bool8 : haystack.type ≠ .bool8
  inRange : ∀ value, some value ∈ haystack.values → -2 ^ 63 ≤ value ∧ value < 2 ^ 64

lemma toInt64_eq_iff {value : Int} (hlow : -2 ^ 63 ≤ value) (hhigh : value < 2 ^ 64)
    (hn : n < 2 ^ 63) : toInt64 value = n ↔ value = n := by
  rw [toInt64, BitVec.toInt_ofInt, Int.bmod_def]
  omega

lemma mem_fileFilter {haystack : HaystackColumn} (h : haystack.IsIntegers)
    {needles : List (Nat × Int)} (hn : n < 2 ^ 63) : (i, (n : Int)) ∈ fileFilter needles haystack ↔
      (i, (n : Int)) ∈ needles ∧ some (n : Int) ∈ haystack.values := by
  have hset : (n : Int) ∈ (haystack.values.filterMap id).map toInt64 ↔
      some (n : Int) ∈ haystack.values := by
    simp only [List.mem_map, mem_filterMap, id, exists_eq_right]
    constructor
    · rintro ⟨value, hvalue, heq⟩
      obtain ⟨hlow, hhigh⟩ := h.inRange value hvalue
      rwa [← (toInt64_eq_iff hlow hhigh hn).1 heq]
    · intro hmem
      obtain ⟨hlow, hhigh⟩ := h.inRange n hmem
      exact ⟨n, hmem, (toInt64_eq_iff hlow hhigh hn).2 rfl⟩
  rw [fileFilter, if_pos ⟨h.isIntegral, h.ne_bool8⟩, mem_filter, decide_eq_true_eq, hset]

def PartialFilterInfo.filesRead (info : PartialFilterInfo) : List Nat :=
  info.partitionedFiles.map fst ++ info.nonPartitionedFiles

/-- The files are pruned as the values of their directories require. The column of those that are
read is not loaded but filled with these values, whatever numbers of rows the files have. -/
def PartialFilterInfo.Honours (info : PartialFilterInfo) (paths : List HivePath)
    (column : ColumnName) (dtype : DataType) (acceptable : HaystackColumn) : Prop :=
  ∀ i path value, paths[i]? = some path → (column, value) ∈ path.components →
    (some value ∈ acceptable.values → i ∈ info.filesRead) ∧
    (some value ∉ acceptable.values → i ∉ info.partitionedFiles.map fst) ∧
    i ∉ info.nonPartitionedFiles ∧
    ∀ partition numRows row, (info.partitionedFiles.map fst)[partition]? = some i →
      numRows.length = info.partitionedFiles.length → row < numRows.getD partition 0 →
      ∃ filled, constructPartitionKeyColumn dtype (info.partitionedFiles.map snd) numRows =
          .ok filled ∧ filled (offsetOf numRows partition + row) = some value

section Pruning

variable {column : ColumnName} {paths : List HivePath} {acceptable : HaystackColumn}

/-- The directories that are taken for those of the column have values of 63 bits. -/
def FoundInRange (column : ColumnName) (paths : List HivePath) : Prop :=
  ∀ path ∈ paths, ∀ n ∈ HivePath.foundIn column path.components, n < 2 ^ 63

/-- If a path has a directory for the column, the directory that is taken for it has its value. -/
def IsFound (column : ColumnName) (paths : List HivePath) : Prop :=
  ∀ path ∈ paths, ∀ value, (column, value) ∈ path.components →
    ∃ n, HivePath.foundIn column path.components = some n ∧ value = n

lemma mapM_classify_eq (hfound : FoundInRange column paths) :
    (paths.map HivePath.text).mapM (classify column.1) =
      .ok (paths.map (HivePath.kind column)) := by
  rw [mapM_map]
  refine mapM_eq_ok fun path hpath => ?_
  have hn := hfound path hpath
  rw [Function.comp_apply, classify_text, HivePath.kind]
  cases hfoundIn : HivePath.foundIn column path.components with
  | none => rfl
  | some n => simp only [if_pos (hn n hfoundIn)]

lemma foundInRange_of_classify
    (h : (paths.map HivePath.text).mapM (classify column.1) = .ok kinds) :
    FoundInRange column paths := by
  intro path hpath n hn
  rw [mapM_map] at h
  obtain ⟨kind, hkind⟩ := forall_of_mapM_eq_ok h path hpath
  rw [Function.comp_apply, classify_text, mem_def.1 hn] at hkind
  by_contra hlt
  simp only [if_neg hlt] at hkind
  cases hkind

variable {path : HivePath}

lemma getElem?_kind (hi : paths[i]? = some path) :
    (paths.map (HivePath.kind column))[i]? = some (path.kind column) := by
  rw [getElem?_map, hi, map_some]

/-- The files that are kept, after all keys have been found. -/
def infoOf (column : ColumnName) (columnIdx : Nat) (paths : List HivePath)
    (acceptable : HaystackColumn) : PartialFilterInfo :=
  let kinds := paths.map (HivePath.kind column)
  ⟨fileFilter (needlesOf kinds) acceptable, columnIdx, nonPartitionedOf kinds⟩

/-- A file with a key is kept, with that key, if the key is acceptable. -/
lemma mem_files_iff (columnIdx : Nat) (key : Int)
    (hacc : acceptable.IsIntegers) (hi : paths[i]? = some path)
    (hfound : HivePath.foundIn column path.components = some n) (hn : n < 2 ^ 63) :
    (i, key) ∈ (infoOf column columnIdx paths acceptable).partitionedFiles ↔
      key = n ∧ some (n : Int) ∈ acceptable.values := by
  have hkind : path.kind column = .partitioned n := by simp only [HivePath.kind, hfound]
  have hneedle {key' : Int} : (i, key') ∈ needlesOf (paths.map (HivePath.kind column)) ↔
      key' = n := by
    rw [mem_needlesOf, getElem?_kind hi, hkind]
    simp [eq_comm]
  constructor
  · intro hmem
    obtain rfl : key = n := by
      simp only [infoOf, fileFilter, hacc.isIntegral, hacc.ne_bool8, ne_eq] at hmem
      exact hneedle.1 (mem_filter.1 hmem).1
    exact ⟨rfl, ((mem_fileFilter hacc hn).1 hmem).2⟩
  · rintro ⟨rfl, hmem⟩
    exact (mem_fileFilter hacc hn).2 ⟨hneedle.2 rfl, hmem⟩

/-- Pruning is right if the directories that are found have the values of the column. -/
lemma honours_infoOf {columnIdx : Nat} {dtype : DataType} (hdtype : dtype.isIntegral)
    (hvals : ∀ path ∈ paths, ∀ value, (column, value) ∈ path.components →
      castKey dtype value = value) (hacc : acceptable.IsIntegers)
    (hrange : FoundInRange column paths) (hfound : IsFound column paths) :
    (infoOf column columnIdx paths acceptable).Honours paths column dtype acceptable := by
  intro i path value hi hvalue
  have hpath := mem_of_getElem? hi
  obtain ⟨n, hfoundIn, rfl⟩ := hfound path hpath value hvalue
  have hmem (key : Int) :=
    mem_files_iff columnIdx key hacc hi hfoundIn (hrange path hpath n hfoundIn)
  refine ⟨fun hvalue => ?_, fun hvalue hread => ?_, fun hloaded => ?_, ?_⟩
  · exact mem_append_left _ (mem_map.2 ⟨_, (hmem n).2 ⟨rfl, hvalue⟩, rfl⟩)
  · obtain ⟨⟨_, key⟩, hkey, rfl⟩ := mem_map.1 hread
    exact hvalue ((hmem key).1 hkey).2
  · have hkind := mem_nonPartitionedOf.1 hloaded
    rw [getElem?_kind hi, HivePath.kind, hfoundIn] at hkind
    cases hkind
  · intro partition numRows row hpartition hlen hrow
    rw [List.getElem?_map, map_eq_some_iff] at hpartition
    obtain ⟨⟨_, key⟩, hkey, rfl⟩ := hpartition
    obtain ⟨rfl, -⟩ := (hmem key).1 (mem_of_getElem? hkey)
    have hlt : partition < numRows.length := by
      rw [hlen]
      exact (List.getElem?_eq_some_iff.1 hkey).1
    obtain ⟨filled, hfill, hentry⟩ := constructColumn_apply
      ((infoOf column columnIdx paths acceptable).partitionedFiles.map snd) hdtype hlt hrow
    refine ⟨filled, hfill, ?_⟩
    rw [hentry, getD_eq_getElem?_getD, List.getElem?_map, hkey, map_some,
      getD_some, hvals path hpath n hvalue]

/-- A file in whose path nothing is found is loaded with the column. If a directory is found that
does not have the value of the column, the value that it has may be the only acceptable one. -/
lemma isFound_of_honours (columnIdx : Nat) (dtype : DataType)
    (hhonours : ∀ acceptable : HaystackColumn, acceptable.IsIntegers →
      (infoOf column columnIdx paths acceptable).Honours paths column dtype acceptable)
    (hrange : FoundInRange column paths) : IsFound column paths := by
  intro path hpath value hvalue
  obtain ⟨i, hi⟩ := mem_iff_getElem?.1 hpath
  cases hfoundIn : HivePath.foundIn column path.components with
  | none =>
    obtain ⟨-, -, hloaded, -⟩ :=
      hhonours ⟨.int64, []⟩ ⟨rfl, nofun, nofun⟩ i path value hi hvalue
    refine absurd (mem_nonPartitionedOf.2 ?_) hloaded
    rw [getElem?_kind hi, HivePath.kind, hfoundIn]
  | some n =>
    have hlt := hrange path hpath n hfoundIn
    let acceptable : HaystackColumn := ⟨.int64, [some n]⟩
    have hintegers : acceptable.IsIntegers := by
      refine ⟨rfl, nofun, fun v hv => ?_⟩
      obtain rfl : v = n := by simpa [acceptable] using hv
      omega
    obtain ⟨-, hdropped, -⟩ := hhonours acceptable hintegers i path value hi hvalue
    refine ⟨n, rfl, ?_⟩
    by_contra hne
    refine hdropped (by simpa [acceptable] using hne) (mem_map.2 ⟨(i, (n : Int)), ?_, rfl⟩)
    exact (mem_files_iff columnIdx n hintegers hi hfoundIn hlt).2 ⟨rfl, by simp [acceptable]⟩

lemma parsePartialFilter_eq (V : Type) {columnNames : List (List Char)}
    {columnIdx relationIndex : Nat} {subqueries : List (List HaystackColumn)}
    (hcol : columnNames[columnIdx]? = some column.1) (hacc : acceptable.IsIntegers)
    (hsub : subqueries[relationIndex]? = some [acceptable]) :
    parsePartialFilter columnNames (paths.map HivePath.text)
      (some (.inPredicate [.columnReference columnIdx] relationIndex) : Option (Expr V))
      subqueries = (do
        let kinds ← (paths.map HivePath.text).mapM (classify column.1)
        .ok ⟨fileFilter (needlesOf kinds) acceptable, columnIdx, nonPartitionedOf kinds⟩) := by
  have hname : columnNames.getD columnIdx [] = column.1 := by
    rw [getD_eq_getElem?_getD, hcol, getD_some]
  simp only [parsePartialFilter, hname, hsub, hacc.isIntegral, if_true]

end Pruning

/-- Every file is pruned by the value of the directory of the column, whatever values are
acceptable, if and only if in each path the first directory whose name ends with the name of the
column and whose value is not negative has a value of 63 bits and, if the column has a directory,
there is such a first directory and it has the value of the column. -/
theorem parsePartialFilter_honours_iff {V : Type} (columnNames : List (List Char))
    (columnIdx relationIndex : Nat) (column : ColumnName) (paths : List HivePath) (dtype : DataType)
    (hcolumn : columnNames[columnIdx]? = some column.1) (hdtype : dtype.isIntegral)
    (hvalues : ∀ path ∈ paths, ∀ value, (column, value) ∈ path.components →
      castKey dtype value = value) : (∀ acceptable subqueries, acceptable.IsIntegers →
      subqueries[relationIndex]? = some [acceptable] →
      ∃ info, parsePartialFilter columnNames (paths.map HivePath.text)
          (some (.inPredicate [.columnReference columnIdx] relationIndex) : Option (Expr V))
          subqueries = .ok info ∧ info.Honours paths column dtype acceptable) ↔
      FoundInRange column paths ∧ IsFound column paths := by
  constructor
  · intro h
    have hsubquery (acceptable : HaystackColumn) :
        (replicate (relationIndex + 1) [acceptable])[relationIndex]? = some [acceptable] := by
      simp
    have hempty : HaystackColumn.IsIntegers ⟨.int64, []⟩ := ⟨rfl, nofun, nofun⟩
    have hrange : FoundInRange column paths := by
      obtain ⟨info, hinfo, -⟩ := h _ _ hempty (hsubquery _)
      rw [parsePartialFilter_eq V hcolumn hempty (hsubquery _)] at hinfo
      obtain ⟨kinds, hkinds, -⟩ := bind_eq_ok hinfo
      exact foundInRange_of_classify hkinds
    refine ⟨hrange, isFound_of_honours columnIdx dtype (fun acceptable hacceptable => ?_) hrange⟩
    obtain ⟨info, hinfo, hhonours⟩ := h _ _ hacceptable (hsubquery _)
    rw [parsePartialFilter_eq V hcolumn hacceptable (hsubquery _), mapM_classify_eq hrange] at hinfo
    obtain rfl := Except.ok.inj hinfo
    exact hhonours
  · rintro ⟨hrange, hfound⟩ acceptable subqueries hacceptable hsubquery
    refine ⟨infoOf column columnIdx paths acceptable, ?_,
      honours_infoOf hdtype hvalues hacceptable hrange hfound⟩
    rw [parsePartialFilter_eq V hcolumn hacceptable hsubquery, mapM_classify_eq hrange]
    rfl

/-- The column `a`. -/
def columnA : ColumnName := ⟨['a'], by simp [isNameChar]⟩

/-- The column `x_a`. -/
def columnXA : ColumnName := ⟨['x', '_', 'a'], by simp [isNameChar]⟩

/-- A path under `/t`, with the file `f`. -/
def hivePath (components : List (ColumnName × Int)) (h : (components.map fst).Nodup) :
    HivePath :=
  ⟨['/', 't'], by decide, components, h, ['f'], by decide⟩

/-- The path `/t/a=3/x_a=5/f`, where the column is found first. -/
theorem parsePartialFilter_ordered : ∃ info, parsePartialFilter [['a']]
        ([hivePath [(columnA, 3), (columnXA, 5)] (by decide)].map HivePath.text)
        (some (.inPredicate [.columnReference 0] 0) : Option (Expr Nat)) [[⟨.int64, [some 3]⟩]] =
      .ok info ∧ info.Honours [hivePath [(columnA, 3), (columnXA, 5)] (by decide)] columnA .int64
      ⟨.int64, [some 3]⟩ :=
  (parsePartialFilter_honours_iff [['a']] 0 0 columnA
    [hivePath [(columnA, 3), (columnXA, 5)] (by decide)] .int64 rfl rfl
    (fun _ _ _ _ => rfl)).2 (by
      refine ⟨fun path hpath n hn => ?_, fun path hpath value hvalue => ?_⟩
      · obtain rfl := mem_singleton.1 hpath
        obtain rfl : 3 = n := some.inj hn
        decide
      · obtain rfl := mem_singleton.1 hpath
        refine ⟨3, rfl, ?_⟩
        rcases mem_cons.1 hvalue with h | h
        · exact congrArg snd h
        · have hname : columnA = columnXA := congrArg fst (mem_singleton.1 h)
          exact absurd hname (by decide)) _ _ ⟨rfl, by decide, by simp⟩ rfl

/-- The file `/t/x_a=5/a=3/f` is not read if `3` is the only acceptable value of `a`. -/
theorem parsePartialFilter_suffix :
    String.ofList (hivePath [(columnXA, 5), (columnA, 3)] (by decide)).text = "/t/x_a=5/a=3/f" ∧
      (parsePartialFilter [['a']] [(hivePath [(columnXA, 5), (columnA, 3)] (by decide)).text]
        (some (.inPredicate [.columnReference 0] 0) : Option (Expr Nat))
        [[⟨.int64, [some 3]⟩]]).map PartialFilterInfo.filesRead = .ok [] := by
  decide

end Gqe.Parquet
