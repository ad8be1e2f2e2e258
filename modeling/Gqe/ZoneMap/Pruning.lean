import Gqe.ZoneMap.Properties
import Mathlib.Algebra.Order.Ring.Nat
import Mathlib.Data.List.GetD
import Mathlib.Data.List.Nodup

/-!
# Pruned partitions

The zone map of a table holds the statistics of each partition, so that the soundness of a
transformed filter carries over to the partitions `evaluate` reports.
-/

namespace Gqe.ZoneMap

open List ZoneFilter Cudf

variable {V : Type*}

/-! ### The records of a zone map -/

variable {p : Nat}

lemma getElem?_segmentOffsets {numRows partitionSize : Nat} (hps : 0 < partitionSize)
    (hp : p < divideRoundUp numRows partitionSize) :
    (segmentOffsets numRows partitionSize)[p]? = some (p * partitionSize) ∧
      (segmentOffsets numRows partitionSize)[p + 1]? =
        some (min (p * partitionSize + partitionSize) numRows) := by
  have hnext := lt_divideRoundUp (a := numRows) hps (p + 1)
  rw [Nat.succ_mul] at hnext
  unfold segmentOffsets
  set k := divideRoundUp numRows partitionSize
  refine ⟨by simp [getElem?_append, hp], ?_⟩
  by_cases hlast : p + 1 < k
  · simp [getElem?_append, hlast, Nat.succ_mul, le_of_lt (hnext.1 hlast)]
  · have hk : p + 1 - k = 0 := by omega
    simp [getElem?_append, hlast, hk]
    omega

/-- The rows of partition `p`. -/
def partitionRows (t : Table V) (partitionSize p : Nat) : List (Row V) :=
  segment t.rows (p * partitionSize) (min (p * partitionSize + partitionSize) t.numRows)

lemma getElem?_segmentedReduce (f : List (Option V) → Option V) (t : Table V) (i : Nat)
    {partitionSize : Nat} (hps : 0 < partitionSize)
    (hp : p < divideRoundUp t.numRows partitionSize) :
    (segmentedReduce f (t.column i) (segmentOffsets t.numRows partitionSize))[p]? =
      some (f ((partitionRows t partitionSize p).map (·.col i))) := by
  obtain ⟨hstart, hstop⟩ := getElem?_segmentOffsets hps hp
  simp [segmentedReduce, getElem?_zipWith, hstart, hstop, Table.column, segment, partitionRows]

lemma getElem?_flatMap_pair {α : Type*} (f g : Nat → α) {n i : Nat} (hi : i < n) :
    ((range n).flatMap fun i => [f i, g i])[2 * i]? = some (f i) ∧
      ((range n).flatMap fun i => [f i, g i])[2 * i + 1]? = some (g i) := by
  have hlen (n : Nat) : ((range n).flatMap fun i => [f i, g i]).length = 2 * n := by
    simp [mul_comm]
  induction n with
  | zero => simp at hi
  | succ n ih =>
    rw [range_succ, flatMap_append]
    rcases Nat.lt_succ_iff_lt_or_eq.1 hi with h | rfl
    · rw [getElem?_append_left (by rw [hlen]; omega),
        getElem?_append_left (by rw [hlen]; omega)]
      exact ih h
    · rw [getElem?_append_right (by rw [hlen]), getElem?_append_right (by rw [hlen]; omega),
        hlen]
      simp

section Records
variable [LinearOrder V]

lemma getElem?_computeZoneMap (t : Table V) (partitionSize : Nat) {i : Nat}
    (hi : i < t.numColumns) :
    (computeZoneMap t partitionSize)[2 * i]? = some (segmentedReduce minExcludeNulls
      (t.column i) (segmentOffsets t.numRows partitionSize)) ∧
    (computeZoneMap t partitionSize)[2 * i + 1]? = some (segmentedReduce maxExcludeNulls
      (t.column i) (segmentOffsets t.numRows partitionSize)) :=
  getElem?_flatMap_pair _ _ hi

variable {partitionSize : Nat} {zm : ZoneMap V} {t : Table V}

lemma ofTable_ok (t : Table V) (hps : 0 < partitionSize) :
    ∃ zm, ofTable t partitionSize = .ok zm := by
  simp [ofTable, hps.ne']

lemma ofTable_eq_ok (h : ofTable t partitionSize = .ok zm) :
    zm.partitionSize = partitionSize ∧ zm.numRows = t.numRows ∧
      zm.zoneMap = computeZoneMap t partitionSize := by
  unfold ofTable at h
  split at h
  · simp at h
  · obtain rfl := Except.ok.inj h
    exact ⟨rfl, rfl, rfl⟩

omit [LinearOrder V] in
lemma nodup_names (zm : ZoneMap V) : zm.names.Nodup := by
  refine nodup_range.map fun m n h => ?_
  have hdigits := congrArg (fun name : String => Nat.ofDigitChars 10 name.toList 0) h
  simpa [Nat.toString_eq_repr] using hdigits

omit [LinearOrder V] in
lemma field_toString (zm : ZoneMap V) (p : Nat) {k : Nat} {column : List (Option V)}
    (hk : zm.zoneMap[k]? = some column) : zm.field p (toString k) = column.getD p none := by
  have hlen : k < zm.zoneMap.length := (List.getElem?_eq_some_iff.1 hk).1
  have hidx := zm.nodup_names.idxOf_getElem k (by simpa [names] using hlen)
  have hname : zm.names[k]? = some (toString k) := by simp [names, hlen]
  rw [(List.getElem?_eq_some_iff.1 hname).2] at hidx
  rw [field, hidx, zm.zoneMap.getD_eq_getElem?_getD, hk, Option.getD_some]

/-- The records of the zone map of a table are the statistics of its partitions. -/
lemma isStatistics_field (h : ofTable t partitionSize = .ok zm)
    (hp : p < divideRoundUp t.numRows partitionSize) :
    IsStatistics (zm.field p) t.numColumns (partitionRows t partitionSize p) := by
  obtain ⟨rfl, -, hzm⟩ := ofTable_eq_ok h
  intro i hi
  obtain ⟨hmin, hmax⟩ := getElem?_computeZoneMap t zm.partitionSize hi
  rw [← hzm] at hmin hmax
  rw [field_toString zm p hmin, field_toString zm p hmax]
  simp [getElem?_segmentedReduce _ t i zm.partitionSize_pos hp]

lemma numPartitions_eq (h : ofTable t partitionSize = .ok zm) :
    zm.numPartitions = divideRoundUp t.numRows partitionSize := by
  obtain ⟨rfl, -, hzm⟩ := ofTable_eq_ok h
  rw [numPartitions, hzm, computeZoneMap]
  rcases Nat.eq_zero_or_pos t.numColumns with h0 | hpos
  · have : t.numRows = 0 := by
      simp [Table.numRows, t.rows_of_no_columns (length_eq_zero_iff.1 h0)]
    simp [h0, this, divideRoundUp]
  · obtain ⟨n, hn⟩ := Nat.exists_eq_succ_of_ne_zero hpos.ne'
    simp [hn, range_succ_eq_map, segmentedReduce, segmentOffsets]

end Records

/-! ### Reported partitions -/

/-- The expression refers to statistics of `n` columns, and to one at least. -/
def ArrowExpr.IsOver (n : Nat) (z : ArrowExpr V) : Prop :=
  z.fields ≠ [] ∧ ∀ name ∈ z.fields, ∃ k < 2 * n, name = toString k

/-- A test refers to statistics of the columns of the filter only. -/
lemma isOver_toArrow {n : Nat} {f : ZoneFilter V} (hf : ∀ i ∈ f.columns, i < n) (neg : Bool) :
    (f.toArrow neg).IsOver n := by
  induction f generalizing neg with
  | comparison op side i v =>
    have hi : i < n := hf i (by simp)
    have hfields : ((comparison op side i v).toArrow neg).fields = [statistic op side neg i] := by
      cases side <;> simp [ArrowExpr.fields]
    rw [ArrowExpr.IsOver, hfields]
    refine ⟨by simp, fun name hname => ⟨_, ?_, mem_singleton.1 hname⟩⟩
    split <;> omega
  | and f g ihf ihg | or f g ihf ihg =>
    simp only [columns, mem_append] at hf
    obtain ⟨hne, hnames⟩ := ihf (fun i h => hf i (.inl h)) neg
    refine ⟨append_ne_nil_of_left_ne_nil hne _, fun name hname => ?_⟩
    exact (mem_append.1 hname).elim (hnames name) ((ihg (fun i h => hf i (.inr h)) neg).2 name)
  | not f ihf => exact ihf hf _

section Evaluate
variable [LinearOrder V] (C : Cudf V) (slice : Int → Int → V → V)

/-- No partition with a row on which the filter is TRUE is pruned: either the filter is ignored,
and no zone map is consulted, or `evaluate` reports all partitions and those with such a row are
not pruned. -/
def KeepsMatches (raw : Nat → Bool) (t : Table V) (partitionSize : Nat) (e : Expr V) : Prop :=
  transform e = .ok none ∨
    ∃ zm z ps, ofTable t partitionSize = .ok zm ∧ transform e = .ok (some z) ∧
      zm.evaluate C slice raw z = some ps ∧
      ps.length = divideRoundUp t.numRows partitionSize ∧
      ∀ p ∈ ps, (∃ r ∈ segment t.rows p.start p.stop, e.IsTrue C t.typeOf r) → p.pruned = false

variable {t : Table V} {partitionSize : Nat} {e : Expr V}

/-- The partitions reported for an arrow expression over the statistics of the table. -/
lemma evaluate_eq {zm : ZoneMap V} (hzm : ofTable t partitionSize = .ok zm) {z : ArrowExpr V}
    (hz : z.IsOver t.numColumns) (raw : Nat → Bool) :
    zm.evaluate C slice raw z =
      some ((range (divideRoundUp t.numRows partitionSize)).map fun p =>
        { pruned := !(C.toBool (z.eval C slice (zm.field p))).getD (raw p),
          start := p * partitionSize,
          stop := min (p * partitionSize + partitionSize) t.numRows,
          nullCounts := zm.nullCounts.map (·.getD p 0) }) := by
  have hnum := numPartitions_eq hzm
  obtain ⟨rfl, hrows, hmap⟩ := ofTable_eq_ok hzm
  have hbound : z.isBound zm.names := by
    simp only [ArrowExpr.isBound, Bool.and_eq_true, Bool.not_eq_true', isEmpty_eq_false_iff,
      all_eq_true, decide_eq_true_eq]
    refine ⟨hz.1, fun name hname => ?_⟩
    obtain ⟨k, hk, rfl⟩ := hz.2 name hname
    have hlen : zm.zoneMap.length = 2 * t.numColumns := by
      simp [hmap, computeZoneMap, mul_comm]
    exact mem_map.2 ⟨k, by simpa [hlen] using hk, rfl⟩
  rw [evaluate, if_pos hbound, hnum, hrows]

/-- A partition is kept exactly if the transformed filter is TRUE on its record, the stored bit
deciding where it is NULL. -/
lemma keeps_iff_of_transform (hps : 0 < partitionSize) {z : ArrowExpr V}
    (htr : transform e = .ok (some z)) (hz : z.IsOver t.numColumns) (raw : Nat → Bool) :
    KeepsMatches C slice raw t partitionSize e ↔
      ∀ zm, ofTable t partitionSize = .ok zm → ∀ p < divideRoundUp t.numRows partitionSize,
        (∃ r ∈ partitionRows t partitionSize p, e.IsTrue C t.typeOf r) →
          (C.toBool (z.eval C slice (zm.field p))).getD (raw p) = true := by
  obtain ⟨zm, hzm⟩ := ofTable_ok t hps
  have hev := evaluate_eq C slice hzm hz raw
  constructor
  · rintro (h | ⟨zm', z', ps, hzm', hz', hps', -, hkeep⟩) zm'' hzm'' p hp hrow
    · simp [h] at htr
    · obtain rfl : zm = zm' := by simpa [hzm] using hzm'
      obtain rfl : zm = zm'' := by simpa [hzm] using hzm''
      obtain rfl : z = z' := by simpa [htr] using hz'
      obtain rfl := Option.some.inj (hev.symm.trans hps')
      simpa using hkeep _ (mem_map.2 ⟨p, mem_range.2 hp, rfl⟩) hrow
  · intro h
    refine .inr ⟨zm, z, _, hzm, htr, hev, by simp, ?_⟩
    simp only [forall_mem_map, mem_range]
    intro p hp hrow
    rw [h zm hzm p hp hrow, Bool.not_true]

/-- A partition is kept exactly if the test of what is kept of the filter is TRUE on its record,
the stored bit deciding where the test is NULL. -/
lemma keepsMatches_iff (hps : 0 < partitionSize) (hf : IsFilter t.numColumns e) (raw : Nat → Bool) :
    KeepsMatches C slice raw t partitionSize e ↔
      ∀ zm f, ofTable t partitionSize = .ok zm → kept e = some f →
        ∀ p < divideRoundUp t.numRows partitionSize,
          (∃ r ∈ partitionRows t partitionSize p, e.IsTrue C t.typeOf r) →
            (test C slice (zm.field p) false f).getD (raw p) = true := by
  have htr : transform e = .ok ((kept e).map (·.toArrow false)) := hf.visit_eq false
  cases hk : kept e with
  | none => simp [KeepsMatches, htr, hk]
  | some f =>
    rw [hk] at htr
    rw [keeps_iff_of_transform C slice hps htr
      (isOver_toArrow (fun i => hf.lt_of_mem_columns hk) false)]
    constructor
    · rintro h zm f' hzm hf'
      obtain rfl := Option.some.inj hf'
      exact h zm hzm
    · intro h zm hzm
      exact h zm f hzm rfl

/-! ### Tables without NULLs -/

@[simp] def IsNullFree (t : Table V) : Prop := ∀ r ∈ t.rows, none ∉ r

variable {r : Row V}

omit [LinearOrder V] in
lemma mem_rows_of_partition (hr : r ∈ partitionRows t partitionSize p) : r ∈ t.rows :=
  mem_of_mem_take (mem_of_mem_drop hr)

omit [LinearOrder V] in
lemma IsNullFree.col_ne_none (ht : IsNullFree t) (hr : r ∈ t.rows) {i : Nat}
    (hi : i < t.numColumns) : r.col i ≠ none := by
  intro h
  have hlen : i < r.length := by rw [t.length_row r hr]; exact hi
  rw [Row.col, getD_eq_getElem _ _ hlen] at h
  exact ht r hr (h ▸ getElem_mem hlen)

omit [LinearOrder V] in
lemma partitionRows_one (hp : t.rows[p]? = some r) : partitionRows t 1 p = [r] := by
  obtain ⟨hlt, rfl⟩ := List.getElem?_eq_some_iff.1 hp
  have : min (p * 1 + 1) t.numRows = p + 1 := by
    rw [mul_one, min_eq_left]
    exact hlt
  rw [partitionRows, this, segment, mul_one, drop_take, Nat.add_sub_cancel_left,
    drop_eq_getElem_cons hlt, take_succ_cons, take_zero]

/-- If what is kept of the filter is TRUE wherever the filter is, no partition with a matching row
is pruned. -/
lemma keepsMatches_of_kept (ht : IsNullFree t) (hf : IsFilter t.numColumns e)
    (h : ∀ r ∈ t.rows, e.IsTrue C t.typeOf r → ∀ f, kept e = some f → f.eval r = some true)
    (hps : 0 < partitionSize) (raw : Nat → Bool) : KeepsMatches C slice raw t partitionSize e := by
  rw [keepsMatches_iff C slice hps hf]
  rintro zm f hzm hk p hp ⟨r, hr, htrue⟩
  have hcols : ∀ i ∈ f.columns, i < t.numColumns := fun i => hf.lt_of_mem_columns hk
  have hmem := mem_rows_of_partition hr
  have hs := isStatistics_field hzm hp
  obtain ⟨b, hb⟩ : ∃ b, test C slice (zm.field p) false f = some b := by
    rw [← Option.ne_none_iff_exists', ne_eq, test_eq_none_iff C slice hs false f hcols]
    rintro ⟨i, hi, hv⟩
    exact hv ⟨r, hr, ht.col_ne_none hmem (hcols i hi)⟩
  rw [hb, Option.getD_some, test_sound C slice hs false f hcols hr (h r hmem htrue f hk) hb,
    Bool.not_false]

/-- With one row in each partition, a matching row is kept only if what is kept of the filter is
TRUE on it. -/
lemma eval_kept_of_keepsMatches (ht : IsNullFree t) (hf : IsFilter t.numColumns e)
    {raw : Nat → Bool} (h : KeepsMatches C slice raw t 1 e) (hr : r ∈ t.rows)
    (htrue : e.IsTrue C t.typeOf r) {f : ZoneFilter V} (hk : kept e = some f) :
    f.eval r = some true := by
  have hcols : ∀ i ∈ f.columns, i < t.numColumns := fun i => hf.lt_of_mem_columns hk
  obtain ⟨p, hp⟩ := List.getElem?_of_mem hr
  obtain ⟨zm, hzm⟩ := ofTable_ok t one_pos
  have hlt : p < divideRoundUp t.numRows 1 := by
    rw [lt_divideRoundUp one_pos, mul_one]
    exact (List.getElem?_eq_some_iff.1 hp).1
  have hs := isStatistics_field hzm hlt
  have hkeep := (keepsMatches_iff C slice one_pos hf raw).1 h zm f hzm hk p hlt
  rw [partitionRows_one hp] at hs hkeep
  have hnonnull : ∀ i ∈ f.columns, r.col i ≠ none := fun i hi =>
    ht.col_ne_none hr (hcols i hi)
  have hknown := test_singleton_ne_none C slice hs false f hcols hnonnull
  rw [test_singleton C slice hs false f hcols hnonnull] at hkeep hknown
  obtain ⟨b, hb⟩ := Option.ne_none_iff_exists'.1 hknown
  rw [hb, Option.getD_some] at hkeep
  rw [hb, hkeep ⟨r, mem_singleton_self r, htrue⟩]

/-- On a table without NULLs no partition with a matching row is pruned, whatever the partition
size, exactly if on each row on which the filter is TRUE so is what the transformer keeps of it. -/
theorem keepsMatches_iff_kept (ht : IsNullFree t) (hf : IsFilter t.numColumns e) :
    (∀ partitionSize, 0 < partitionSize → ∀ raw, KeepsMatches C slice raw t partitionSize e) ↔
      ∀ r ∈ t.rows, e.IsTrue C t.typeOf r → ∀ f, kept e = some f → f.eval r = some true :=
  ⟨fun h _ hr htrue _ hk =>
      eval_kept_of_keepsMatches C slice ht hf (h 1 one_pos fun _ => false) hr htrue hk,
    fun h _ hps raw => keepsMatches_of_kept C slice ht hf h hps raw⟩

/-- If no AND beneath an odd number of negations has exactly one operand that is dropped, no
partition with a matching row of a table without NULLs is pruned. -/
theorem keepsMatches_of_negatedAndsWhole (ht : IsNullFree t) (hf : IsFilter t.numColumns e)
    (hw : NegatedAndsWhole false e) (hps : 0 < partitionSize) (raw : Nat → Bool) :
    KeepsMatches C slice raw t partitionSize e :=
  keepsMatches_of_kept C slice ht hf
    (fun _ _ htrue _ hk => hf.eval_kept C t.typeOf hw hk htrue) hps raw

end Evaluate

/-- The single row `(1, 3)`. -/
def oneRow : Table Int where
  types := [.int32, .int32]
  rows := [[some 1, some 3]]
  length_row := by simp
  rows_of_no_columns := by simp

/-- `NOT (a < 5 AND b <> 3)`. -/
def negatedAnd : Expr Int :=
  .unaryOp .not (.binaryOp .nullLogicalAnd
    (.binaryOp .less (.columnReference 0) (.literal .int32 5 false))
    (.binaryOp .notEqual (.columnReference 1) (.literal .int32 3 false)))

/-- The row of `oneRow` matches because of the operand that is dropped. -/
theorem negatedAnd_loses_row : IsNullFree oneRow ∧ IsFilter oneRow.numColumns negatedAnd ∧
      ¬ KeepsMatches integers (fun _ _ v => v) (fun _ => false) oneRow 1 negatedAnd := by
  have hf : IsFilter oneRow.numColumns negatedAnd :=
    .not (.and (.columnLiteral (by decide) (by decide) rfl)
      (.ignored fun _ => rfl))
  refine ⟨by simp [oneRow], hf, fun h => ?_⟩
  have := (keepsMatches_iff _ _ one_pos hf _).1 h _ _ rfl rfl 0 (by decide)
  exact absurd this (by decide)

/-- `NOT (a < 5 AND 3 > b)`. -/
def negatedWholeAnd : Expr Int :=
  .unaryOp .not (.binaryOp .nullLogicalAnd
    (.binaryOp .less (.columnReference 0) (.literal .int32 5 false))
    (.binaryOp .greater (.literal .int32 3 false) (.columnReference 1)))

theorem negatedWholeAnd_keeps_row : negatedWholeAnd.IsTrue integers oneRow.typeOf [some 1, some 3] ∧
      ∀ partitionSize, 0 < partitionSize → ∀ raw,
        KeepsMatches integers (fun _ _ v => v) raw oneRow partitionSize negatedWholeAnd :=
  ⟨by decide, (keepsMatches_iff_kept _ _ (by simp [oneRow])
    (.not (.and (.columnLiteral (by decide) (by decide) rfl)
      (.literalColumn (by decide) (by decide) rfl)))).2 (by
    intro r hr _ f hf
    obtain rfl := Option.some.inj hf
    obtain rfl := mem_singleton.1 hr
    decide)⟩

/-! ### Tables with NULLs -/

section EvaluateNull
variable [LinearOrder V] (C : Cudf V) (slice : Int → Int → V → V)
  {t : Table V} {partitionSize : Nat} {e : Expr V}

/-- For a filter without negation, no partition with a matching row is pruned, whatever bits are
stored for NULL entries, exactly if in each such partition every column that the kept filter
compares has a value. -/
theorem keepsMatches_iff_hasValue (hps : 0 < partitionSize) (hf : IsFilter t.numColumns e)
    (hneg : NegationFree e) : (∀ raw, KeepsMatches C slice raw t partitionSize e) ↔
      ∀ p < divideRoundUp t.numRows partitionSize,
        (∃ r ∈ partitionRows t partitionSize p, e.IsTrue C t.typeOf r) →
          ∀ f, kept e = some f → ∀ i ∈ f.columns, HasValue (partitionRows t partitionSize p) i := by
  obtain ⟨zm, hzm⟩ := ofTable_ok t hps
  have hcols {f} (hk : kept e = some f) : ∀ i ∈ f.columns, i < t.numColumns := fun i =>
    hf.lt_of_mem_columns hk
  constructor
  · intro h p hp hrow f hk
    have hkeep := (keepsMatches_iff C slice hps hf _).1 (h fun _ => false) zm f hzm hk p hp hrow
    by_contra hv
    have hnone : test C slice (zm.field p) false f = none :=
      (test_eq_none_iff C slice (isStatistics_field hzm hp) false f (hcols hk)).2 (by
        push Not at hv
        exact hv)
    simp [hnone] at hkeep
  · intro h raw
    rw [keepsMatches_iff C slice hps hf]
    rintro zm f hzm hk p hp ⟨r, hr, htrue⟩
    have hs := isStatistics_field hzm hp
    obtain ⟨b, hb⟩ : ∃ b, test C slice (zm.field p) false f = some b := by
      rw [← Option.ne_none_iff_exists', ne_eq, test_eq_none_iff C slice hs false f (hcols hk)]
      rintro ⟨i, hi, hv⟩
      exact hv (h p hp ⟨r, hr, htrue⟩ f hk i hi)
    have htrue := hf.eval_kept C t.typeOf hneg.negatedAndsWhole hk htrue
    rw [hb, Option.getD_some, test_sound C slice hs false f (hcols hk) hr htrue hb, Bool.not_false]

end EvaluateNull

/-- The single row `(NULL, 1)`. -/
def nullRow : Table Int where
  types := [.int32, .int32]
  rows := [[none, some 1]]
  length_row := by simp
  rows_of_no_columns := by simp

/-- `a < 5 OR b < 5`. -/
def eitherLess : Expr Int :=
  .binaryOp .nullLogicalOr
    (.binaryOp .less (.columnReference 0) (.literal .int32 5 false))
    (.binaryOp .less (.columnReference 1) (.literal .int32 5 false))

lemma isFilter_eitherLess : IsFilter 2 eitherLess :=
  .or (.columnLiteral (by decide) (by decide) rfl) (.columnLiteral (by decide) (by decide) rfl)

/-- The row of `nullRow` matches, but the statistics of its first column are NULL. -/
theorem eitherLess_loses_row : IsFilter nullRow.numColumns eitherLess ∧ NegationFree eitherLess ∧
      ¬ KeepsMatches integers (fun _ _ v => v) (fun _ => false) nullRow 1 eitherLess := by
  refine ⟨isFilter_eitherLess, by simp [eitherLess, NegationFree], fun h => ?_⟩
  have := (keepsMatches_iff (t := nullRow) _ _ one_pos isFilter_eitherLess _).1 h _ _ rfl rfl 0
  exact absurd this (by decide)

/-- The rows `(NULL, 1)` and `(7, 9)`. -/
def twoRows : Table Int where
  types := [.int32, .int32]
  rows := [[none, some 1], [some 7, some 9]]
  length_row := by simp
  rows_of_no_columns := by simp

theorem eitherLess_keeps_rows : eitherLess.IsTrue integers twoRows.typeOf [none, some 1] ∧
      ∀ raw, KeepsMatches integers (fun _ _ v => v) raw twoRows 2 eitherLess :=
  ⟨by decide, (keepsMatches_iff_hasValue (t := twoRows) _ _ two_pos isFilter_eitherLess
    (by simp [eitherLess, NegationFree])).2 (by
      intro p hp _ f hf i hi
      obtain rfl := Option.some.inj hf
      obtain rfl : p = 0 := by
        have : divideRoundUp twoRows.numRows 2 = 1 := by decide
        omega
      refine ⟨[some 7, some 9], by decide, ?_⟩
      obtain rfl | rfl : i = 0 ∨ i = 1 := by simpa using hi
      all_goals decide)⟩

end Gqe.ZoneMap
