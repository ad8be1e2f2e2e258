import Gqe.Lib.Utf8
import Gqe.ZoneMap.Pruning

/-!
# Pruning by substrings

A comparison of `substr(column, start, length)` with a literal is tested on the same slice of the
minimum and the maximum of the column. Strings are lists of characters, ordered by their bytes.
-/

namespace Gqe.ZoneMap

open List Comparison Option

/-! ### Slices of strings -/

/-- The position a bound of a slice stands for; negative ones count from the end. -/
def slicePosition (length : Nat) (i : Int) : Nat := (if i < 0 then length + i else i).toNat

/-- The characters `start, ..., stop - 1` of a string, as far as it has them. -/
def sliceString (start stop : Int) (s : List Char) : List Char :=
  (s.take (slicePosition s.length stop)).drop (slicePosition s.length start)

/-- The slice is a prefix, or always empty. -/
def IsPrefixSlice (start length : Int) : Prop :=
  start = 0 ∧ 0 ≤ length ∨ length ≤ 0 ∧ (0 ≤ start + length ∨ start < 0) ∨
    start < 0 ∧ start + length = 0

instance (start length : Int) : Decidable (IsPrefixSlice start length) :=
  inferInstanceAs (Decidable (_ ∨ _))

variable {start stop : Int}

lemma sliceString_eq_nil {s : List Char}
    (h : slicePosition s.length stop ≤ slicePosition s.length start) :
    sliceString start stop s = [] := by
  rw [sliceString, drop_eq_nil_iff, length_take]
  omega

variable {start length : Int}

lemma IsPrefixSlice.monotone (h : IsPrefixSlice start length) :
    Monotone (sliceString start (start + length)) := by
  have hemp : (∀ s : List Char, sliceString start (start + length) s = []) →
      Monotone (sliceString start (start + length)) := fun h s t _ => by rw [h s, h t]
  rcases h with ⟨rfl, hlen⟩ | h | h
  · intro s t hst
    have htake : ∀ s, sliceString 0 (0 + length) s = s.take length.toNat := by
      simp [sliceString, slicePosition, not_lt.2 hlen]
    rw [htake, htake]
    exact Utf8.take_le_take hst _
  · refine hemp fun s => sliceString_eq_nil ?_
    simp only [slicePosition]
    split_ifs <;> omega
  · refine hemp fun s => sliceString_eq_nil ?_
    simp only [slicePosition]
    split_ifs <;> omega

lemma cons_a_lt_cons_b (x y : List Char) : 'a' :: x < 'b' :: y :=
  cons_lt_cons_iff.2 (.inl (by decide))

/-- A slice that leaves out the first character of some strings, but not all of them. -/
lemma not_monotone_of_inner {n : Nat} (hstart : 1 ≤ slicePosition (n + 1) start)
    (hstop : slicePosition (n + 1) start < slicePosition (n + 1) stop)
    (hn : slicePosition (n + 1) start < n + 1) : ¬Monotone (sliceString start stop) := by
  intro h
  have hslice : ∀ c d : Char, ∃ k, sliceString start stop (c :: replicate n d) =
      d :: replicate k d := by
    intro c d
    obtain ⟨q, hq⟩ := Nat.exists_eq_add_of_le' hstart
    obtain ⟨p, hp⟩ := Nat.exists_eq_add_of_lt hstop
    obtain ⟨k, hk⟩ : ∃ k, min (q + p + 1) n - q = k + 1 :=
      Nat.exists_eq_add_of_le' (by omega)
    refine ⟨k, ?_⟩
    simp only [sliceString, length_cons, length_replicate, hp, hq,
      show q + 1 + p + 1 = q + p + 1 + 1 by omega, take_succ_cons, drop_succ_cons,
      take_replicate, drop_replicate]
    rw [hk, replicate_succ]
  obtain ⟨k, hs⟩ := hslice 'a' 'b'
  obtain ⟨l, ht⟩ := hslice 'b' 'a'
  have hle := h (cons_a_lt_cons_b (replicate n 'b') (replicate n 'a')).le
  rw [hs, ht] at hle
  exact absurd (cons_a_lt_cons_b _ _) (not_lt.2 hle)

/-- A slice that is empty on some strings, but not on shorter or longer ones. -/
lemma not_monotone_of_length {m n : Nat}
    (hm : slicePosition (m + 1) start < min (slicePosition (m + 1) stop) (m + 1))
    (hn : slicePosition (n + 1) stop ≤ slicePosition (n + 1) start) :
    ¬Monotone (sliceString start stop) := by
  intro h
  have hs : sliceString start stop (replicate (m + 1) 'a') ≠ [] := by
    simp only [sliceString, length_replicate, take_replicate, drop_replicate, ne_eq,
      replicate_eq_nil_iff]
    omega
  have ht : sliceString start stop (replicate (n + 1) 'b') = [] :=
    sliceString_eq_nil (by simpa using hn)
  have hle := h (cons_a_lt_cons_b (replicate m 'a') (replicate n 'b')).le
  rw [← replicate_succ, ← replicate_succ, ht] at hle
  obtain ⟨c, x, hcons⟩ := exists_cons_of_ne_nil hs
  rw [hcons] at hle
  exact absurd (nil_lt_cons c x) (not_lt.2 hle)

/-- Slices keep the order of strings exactly if they are prefixes. -/
theorem monotone_sliceString_iff :
    Monotone (sliceString start (start + length)) ↔ IsPrefixSlice start length := by
  refine ⟨fun h => ?_, IsPrefixSlice.monotone⟩
  by_contra hslice
  have hcases : 0 < start ∧ 0 < length ∨ 0 ≤ start ∧ start + length < 0 ∨
      start < 0 ∧ 0 < length ∧ start + length ≠ 0 := by
    simp only [IsPrefixSlice] at hslice
    omega
  obtain ⟨n, hn⟩ : ∃ n : Nat, n = start.natAbs := ⟨_, rfl⟩
  rcases hcases with hpos | hneg | hend
  · refine not_monotone_of_inner (n := n) ?_ ?_ ?_ h <;>
      simp only [slicePosition] <;> split_ifs <;> omega
  · refine not_monotone_of_length (m := n + (start + length).natAbs) (n := 0) ?_ ?_ h <;>
      simp only [slicePosition] <;> split_ifs <;> omega
  · by_cases hone : start + length = 1
    · refine not_monotone_of_length (m := 0) (n := n) ?_ ?_ h <;>
        simp only [slicePosition] <;> split_ifs <;> omega
    · refine not_monotone_of_inner (n := n) ?_ ?_ ?_ h <;>
        simp only [slicePosition] <;> split_ifs <;> omega

/-! ### Comparisons of substrings -/

open ZoneFilter

variable {V : Type*}

/-- A comparison of a substring of a column with a string, the substring on the given side. -/
def substrComparison (op : BinaryOp) (side : Side) (start length : Int) (i : Nat) (v : V) :
    Expr V :=
  match side with
  | .lhs => .binaryOp op (.scalarFunction (.substr start length) (.columnReference i))
      (.literal .string v false)
  | .rhs => .binaryOp op (.literal .string v false)
      (.scalarFunction (.substr start length) (.columnReference i))

/-- The slice of a statistic compared with a string. -/
def sliceComparison (op : Comparison) (side : Side) (start stop : Int) (i : Nat) (v : V) :
    ArrowExpr V :=
  match side with
  | .lhs => .compare op (.utf8SliceCodeunits (.fieldRef (statistic op side false i)) start stop)
      (.literal v)
  | .rhs => .compare op (.literal v)
      (.utf8SliceCodeunits (.fieldRef (statistic op side false i)) start stop)

/-- The comparisons into which the transformer takes a comparison apart. -/
def comparisons : BinaryOp → List Comparison
  | .equal => [.lessEqual, .greaterEqual]
  | .less => [.less]
  | .lessEqual => [.lessEqual]
  | .greater => [.greater]
  | .greaterEqual => [.greaterEqual]
  | _ => []

def sliceTest (op : BinaryOp) (side : Side) (start stop : Int) (i : Nat) (v : V) :
    Option (ArrowExpr V) :=
  match comparisons op with
  | [] => none
  | [a] => some (sliceComparison a side start stop i v)
  | a :: b :: _ => some (.and (sliceComparison a side start stop i v)
      (sliceComparison b side start stop i v))

variable {op : BinaryOp}

lemma transform_substrComparison (hop : IsComparison op ∨ op = .notEqual)
    (side : Side) (start length : Int) (i : Nat) (v : V) :
    transform (substrComparison op side start length i v) =
      .ok (sliceTest op side start (start + length) i v) := by
  rcases hop with (rfl | rfl | rfl | rfl | rfl) | rfl <;> cases side <;> rfl

lemma fields_sliceComparison (op : Comparison) (side : Side) (start stop : Int) (i : Nat) (v : V) :
    (sliceComparison op side start stop i v).fields = [statistic op side false i] := by
  cases side <;> rfl

variable {side : Side}

lemma isOver_sliceTest {i n : Nat} {v : V} {z : ArrowExpr V}
    (hz : sliceTest op side start stop i v = some z) (hi : i < n) : z.IsOver n := by
  obtain ⟨hne, hnames⟩ : z.fields ≠ [] ∧ ∀ name ∈ z.fields, ∃ c,
      name = statistic c side false i := by
    cases op <;> simp only [sliceTest, comparisons, reduceCtorEq, some.injEq] at hz <;>
      subst hz <;> simp only [ArrowExpr.fields, fields_sliceComparison] <;> grind
  refine ⟨hne, fun name hname => ?_⟩
  obtain ⟨c, rfl⟩ := hnames name hname
  exact ⟨_, by split <;> omega, rfl⟩

variable [LinearOrder V]

lemma toBool_sliceComparison (C : Cudf V) (slice : Int → Int → V → V) (field : String → Option V)
    (op : Comparison) (side : Side) (start stop : Int) (i : Nat) (v : V) :
    C.toBool ((sliceComparison op side start stop i v).eval C slice field) =
      (field (statistic op side false i)).map fun m => op.holdsAt side (slice start stop m) v := by
  cases side <;> cases h : field (statistic op _ false i) <;>
    simp [sliceComparison, h, holdsAt]

/-- The test is TRUE if each of its comparisons is. -/
lemma toBool_sliceTest {C : Cudf V} {slice : Int → Int → V → V} {field : String → Option V}
    {i : Nat} {v : V} {z : ArrowExpr V} (hz : sliceTest op side start stop i v = some z)
    (h : ∀ c ∈ comparisons op,
      C.toBool ((sliceComparison c side start stop i v).eval C slice field) = some true) :
    C.toBool (z.eval C slice field) = some true := by
  cases op <;> simp only [sliceTest, comparisons, reduceCtorEq, some.injEq] at hz <;>
    subst hz
  case equal =>
    have hle := h .lessEqual (by simp [comparisons])
    have hge := h .greaterEqual (by simp [comparisons])
    simp [hle, hge]
  all_goals exact h _ (by simp [comparisons])

lemma holdsAt_of_isTrue {C : Cudf V} {τ : Nat → DataType} {i : Nat} {v x : V} {r : Row V}
    (hx : r.col i = some x) (h : (substrComparison op side start length i v).IsTrue C τ r)
    {c : Comparison} (hc : c ∈ comparisons op) :
    c.holdsAt side (C.scalarFunction (.substr start length) x) v = true := by
  cases op <;> simp only [comparisons] at hc <;>
    cases side <;>
    simp [substrComparison, Expr.IsTrue, Cudf.binaryOp, hx] at h <;>
    grind [holdsAt, holds]

/-! ### Columns of strings -/

/-- What is done with strings: they are compared by their bytes, and cuDF's `slice_strings` and
arrow's `utf8_slice_codeunits` take the same characters of them. -/
structure StringOperations (C : Cudf V) (slice : Int → Int → V → V) where
  ofString : List Char → V
  lt_iff : ∀ s t, ofString s < ofString t ↔ Utf8.bytes s < Utf8.bytes t
  substr : ∀ start length s, C.scalarFunction (.substr start length) (ofString s) =
    ofString (sliceString start (start + length) s)
  slice : ∀ start stop s, slice start stop (ofString s) = ofString (sliceString start stop s)

namespace StringOperations

variable {C : Cudf V} {slice : Int → Int → V → V} (S : StringOperations C slice)

/-- Column `i` holds strings and no NULLs. -/
def IsColumn (t : Table V) (i : Nat) : Prop := ∀ r ∈ t.rows, ∃ s, r.col i = some (S.ofString s)

lemma ofString_le_iff {s t : List Char} : S.ofString s ≤ S.ofString t ↔ s ≤ t := by
  rw [← not_lt, S.lt_iff, Utf8.bytes_lt_bytes_iff, not_lt]

/-- Prefixes of the statistics bound the prefixes of the strings. -/
lemma keeps_of_isPrefixSlice {start length : Int} (h : IsPrefixSlice start length)
    {t : Table V} {i : Nat} (hi : i < t.numColumns) (ht : S.IsColumn t i) {op : BinaryOp}
    (hop : IsComparison op ∨ op = .notEqual) (side : Side) (v : V) {partitionSize : Nat}
    (hps : 0 < partitionSize) (raw : Nat → Bool) :
    KeepsMatches C slice raw t partitionSize (substrComparison op side start length i v) := by
  have htr := transform_substrComparison hop side start length i v
  cases hz : sliceTest op side start (start + length) i v with
  | none => exact .inl (htr.trans (congrArg _ hz))
  | some z =>
    rw [hz] at htr
    rw [keeps_iff_of_transform C slice hps htr (isOver_sliceTest hz hi)]
    rintro zm hzm p hp ⟨r, hr, htrue⟩
    have hs := isStatistics_field hzm hp
    obtain ⟨x, hx⟩ := ht r (mem_rows_of_partition hr)
    have hall : ∀ c ∈ comparisons op, C.toBool ((sliceComparison c side start (start + length) i
        v).eval C slice (zm.field p)) = some true := by
      intro c hc
      obtain ⟨m, hm⟩ : ∃ m, zm.field p (statistic c side false i) = some m := by
        rw [← ne_none_iff_exists', ne_eq, hs.field_eq_none hi, not_not]
        exact ⟨r, hr, by simp [hx]⟩
      obtain ⟨r', hr', hr'm⟩ := hs.exists_of_statistic hi hm
      obtain ⟨y, hy⟩ := ht r' (mem_rows_of_partition hr')
      obtain rfl : m = S.ofString y := some.inj (hr'm.symm.trans hy)
      have hholds := holdsAt_of_isTrue hx htrue hc
      obtain ⟨hmin, hmax⟩ := hs.statistic_bounds hi hm hr hx
      rw [S.ofString_le_iff] at hmin hmax
      rw [S.substr] at hholds
      rw [toBool_sliceComparison, hm, map_some, S.slice, some.injEq]
      refine holdsAt_of_bounds false ⟨fun hu => ?_, fun hu => ?_⟩ hholds
      · exact S.ofString_le_iff.2 (h.monotone (hmin hu))
      · exact S.ofString_le_iff.2 (h.monotone (hmax hu))
    rw [toBool_sliceTest hz hall, getD_some]

def twoStrings (s t : List Char) : Table V :=
  .ofColumn .string [some (S.ofString s), some (S.ofString t)]

/-- If the larger string has the smaller substring, it is lost. -/
lemma sliceString_le_of_keeps {start length : Int} {s t : List Char} (hst : s ≤ t)
    (h : KeepsMatches C slice (fun _ => false) (S.twoStrings s t) 2
      (substrComparison .lessEqual .lhs start length 0
        (S.ofString (sliceString start (start + length) t)))) :
    sliceString start (start + length) s ≤ sliceString start (start + length) t := by
  obtain ⟨zm, hzm⟩ := ofTable_ok (S.twoStrings s t) Nat.two_pos
  have hp : 0 < divideRoundUp (S.twoStrings s t).numRows 2 :=
    (lt_divideRoundUp Nat.two_pos 0).2 Nat.two_pos
  have hcol : 0 < (S.twoStrings s t).numColumns := Nat.one_pos
  have hrows : partitionRows (S.twoStrings s t) 2 0 =
      [[some (S.ofString s)], [some (S.ofString t)]] := rfl
  have hs := isStatistics_field hzm hp
  rw [hrows] at hs
  have hz : sliceTest .lessEqual .lhs start (start + length) 0
      (S.ofString (sliceString start (start + length) t)) =
    some (sliceComparison .lessEqual .lhs start (start + length) 0
      (S.ofString (sliceString start (start + length) t))) := rfl
  rw [keeps_iff_of_transform C slice Nat.two_pos
    (transform_substrComparison (.inl (by decide)) .lhs start length 0 _)
    (isOver_sliceTest hz hcol)] at h
  have hkeep := h zm hzm 0 hp ⟨[some (S.ofString t)], by simp [hrows],
    by simp [substrComparison, Expr.IsTrue, Cudf.binaryOp, Row.col, S.substr]⟩
  -- The statistic is the minimum, which is the first string.
  have hmin : zm.field 0 (statistic .lessEqual .lhs false 0) = some (S.ofString s) := by
    have hle := S.ofString_le_iff.2 hst
    rw [statistic, usesMax]
    simpa [Row.col, hle] using (hs 0 hcol).1
  rw [toBool_sliceComparison, hmin, map_some, S.slice] at hkeep
  exact S.ofString_le_iff.1 (of_decide_eq_true hkeep)

/-- No partition with a matching row is pruned, whatever the strings, the comparison and the
literal, exactly if substrings are prefixes. -/
theorem keepsMatches_substr_iff (start length : Int) :
    (∀ (t : Table V) (i : Nat), i < t.numColumns → S.IsColumn t i →
      ∀ op, IsComparison op ∨ op = .notEqual →
        ∀ (side : Side) (s : List Char) (partitionSize : Nat),
        0 < partitionSize → ∀ raw, KeepsMatches C slice raw t partitionSize
          (substrComparison op side start length i (S.ofString s))) ↔
      IsPrefixSlice start length := by
  constructor
  · intro h
    rw [← monotone_sliceString_iff]
    intro s t hst
    refine S.sliceString_le_of_keeps hst ?_
    refine h (S.twoStrings s t) 0 Nat.one_pos ?_ .lessEqual (by decide) .lhs _ 2 Nat.two_pos _
    simp [twoStrings, IsColumn, Table.ofColumn, Table.build, Row.col]
  · intro h t i hi ht op hop side s partitionSize hps raw
    exact S.keeps_of_isPrefixSlice h hi ht hop side _ hps raw

end StringOperations

/-- Operators on columns of strings, for concrete evaluations; Booleans are stored as the strings
`0` and `1`. -/
def stringCudf : Cudf (List Char) where
  ofBool b := if b then ['1'] else ['0']
  ofBool_injective := by
    intro a b
    cases a <;> cases b <;> simp
  arith _ _ _ x _ := x
  unary _ _ x := x
  cast _ _ x := x
  scalarFunction
    | .substr start length, s => sliceString start (start + length) s
    | _, s => s
  inPredicate _ _ := none

def stringOperations : StringOperations stringCudf sliceString where
  ofString := id
  lt_iff _ _ := Utf8.bytes_lt_bytes_iff.symm
  substr _ _ _ := rfl
  slice _ _ _ := rfl

/-- `substr(column, 0, 1) <= 'a'` on the strings `ax` and `ba`. -/
theorem keepsMatches_substr_prefix : KeepsMatches stringCudf sliceString (fun _ => false)
      (stringOperations.twoStrings ['a', 'x'] ['b', 'a']) 2
      (substrComparison .lessEqual .lhs 0 1 0 ['a']) := by
  refine (stringOperations.keepsMatches_substr_iff 0 1).2 (by decide)
    (stringOperations.twoStrings ['a', 'x'] ['b', 'a']) 0 Nat.one_pos ?_ .lessEqual (by decide) .lhs
    ['a'] 2 Nat.two_pos _
  simp [StringOperations.twoStrings, StringOperations.IsColumn, Table.ofColumn,
    Table.build, Row.col]

/-- `substr(column, 1, 1) <= 'a'` on the same strings: the second one is lost. -/
theorem not_keepsMatches_substr_second :
    (substrComparison .lessEqual .lhs 1 1 0 ['a']).IsTrue stringCudf (fun _ => .string)
        [some ['b', 'a']] ∧ ¬KeepsMatches stringCudf sliceString (fun _ => false)
        (stringOperations.twoStrings ['a', 'x'] ['b', 'a']) 2
        (substrComparison .lessEqual .lhs 1 1 0 ['a']) := by
  refine ⟨by decide, fun h => ?_⟩
  have hle : sliceString 1 (1 + 1) ['a', 'x'] ≤ sliceString 1 (1 + 1) ['b', 'a'] :=
    stringOperations.sliceString_le_of_keeps (by decide) h
  exact absurd hle (by decide)

end Gqe.ZoneMap
