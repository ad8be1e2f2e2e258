import Gqe.PerfectHash.Hashers

/-!
# Shifted encodings

The hashers that are programs of shifts. One instruction per column shifts whole elements past the
bits of the columns before; several instructions per column pick the runs of bits in which rows
differ. Both pack fields, so both are encodings.
-/

namespace Gqe.PerfectHash

open BitFields Shift3Instruction AndOr BitVec Prod

/-! ### Whole elements -/

/-- The field of a column: as many bits as its elements use. -/
def significantField (andOr : AndOr) : Nat × DataType :=
  (64 - andOr.orValue.clz.toNat, andOr.type)

def significantBits (andOrs : List AndOr) : Nat :=
  ((andOrs.map significantField).map fst).sum

/-- Some column has only zeros. -/
def hasZero (andOrs : List AndOr) : Bool := andOrs.any (·.orValue = 0#64)

/-- The instructions for columns with a one in them. -/
def shift1Program : List AndOr → Nat → List Shift1Instruction
  | [], _ => []
  | andOr :: andOrs, offset =>
    ⟨offset % 256⟩ :: shift1Program andOrs (offset + (significantField andOr).1)

lemma clz_eight {value : BitVec 64} (h : value ≠ 0#64) :
    clz 8 value = .ok (value.clz.toNat : Int) := by
  rw [clz, if_neg h]
  rfl

lemma shift1Instructions_eq (andOrs : List AndOr) (offset : Nat) :
    shift1Instructions andOrs offset = if hasZero andOrs then .error .undefined
      else .ok (shift1Program andOrs offset, offset + significantBits andOrs) := by
  induction andOrs generalizing offset with
  | nil => rfl
  | cons andOr andOrs ih =>
    rw [shift1Instructions]
    by_cases hzero : andOr.orValue = 0#64
    · have hhas : hasZero (andOr :: andOrs) = true := by simp [hasZero, hzero]
      rw [clz, if_pos hzero, if_pos hhas]
      rfl
    · have hbits : (64 - (andOr.orValue.clz.toNat : Int)).toNat = (significantField andOr).1 := by
        rw [significantField]
        omega
      have hrest : hasZero (andOr :: andOrs) = hasZero andOrs := by simp [hasZero, hzero]
      rw [clz_eight hzero, hrest]
      simp only [bind, Except.bind, hbits, ih]
      split_ifs
      · rfl
      · simp [shift1Program, significantBits, Nat.add_assoc]

variable {andOrs : List AndOr} {bits : List (BitVec 64)}

lemma instructionHash_shift1 (hbits : IsRow andOrs bits) {offset : Nat}
    (hoff : offset + significantBits andOrs < 256) (word : BitVec 64) :
    instructionHash Shift1Instruction.apply Shift1Instruction.isLast
        (readElements (andOrs.map type) bits) (shift1Program andOrs offset) word =
      (shifted offset (readFields (andOrs.map significantField) bits)).foldl (· ^^^ ·) word := by
  induction hbits generalizing offset word with
  | nil => rfl
  | @cons andOr x andOrs bits _ _ ih =>
    have hsum : significantBits (andOr :: andOrs) =
        64 - andOr.orValue.clz.toNat + significantBits andOrs := rfl
    have hmod : offset % 256 = offset := Nat.mod_eq_of_lt (by omega)
    have hrest : offset + (64 - andOr.orValue.clz.toNat) + significantBits andOrs < 256 := by omega
    rw [shift1Program, hmod]
    exact ih hrest (word ^^^ readElement andOr.type x <<< offset)

variable {andOr : AndOr}

lemma fitsField_significantField (h : andOr.IsNarrow) :
    FitsField andOr (significantField andOr) where
  isKnown := h.isKnown
  le_elementBits := (sub_clz_le_iff (by omega)).2 h.orValue
  isBelow := (sub_clz_le_iff (by omega)).1 (Nat.le_refl _)

lemma isEncoding_shift1 (hnarrow : ∀ andOr ∈ andOrs, andOr.IsNarrow)
    (htot : significantBits andOrs ≤ 20) :
    IsEncoding (.shift1 (shift1Program andOrs 0) (significantBits andOrs)) andOrs
      (readFields (andOrs.map significantField)) := by
  have hfits : List.Forall₂ FitsField andOrs (andOrs.map significantField) :=
    List.forall₂_map_right_iff.2
      (List.forall₂_same.2 fun andOr h => fitsField_significantField (hnarrow andOr h))
  refine isEncoding_readFields hfits (fun bits hbits => ?_) ?_ fun bits _ => ?_
  · rw [Hasher.hash, instructionHash_shift1 hbits (by omega), foldl_xor_shifted]
    simp
  · simp [Hasher.totalSignificantBits, significantBits]
  · rw [Hasher.overflows, List.zipWith_map_left, List.zipWith_map_left]
    rfl

/-! ### Runs of bits -/

/-- The lowest run of ones of a word starts after its zeros and ends before the next zero. -/
structure IsLowestRun (word : BitVec 64) (zeros ones : Nat) : Prop where
  pos : 0 < ones
  le : zeros + ones ≤ 64
  of_lt : ∀ b, b < ones → word.getLsbD (zeros + b) = true
  cases : ∀ b, word.getLsbD b = true → zeros ≤ b ∧ (b < zeros + ones ∨
      zeros + ones ≤ b ∧ (word >>> zeros >>> ones).getLsbD (b - (zeros + ones)) = true)

lemma isLowestRun_ctz {word : BitVec 64} (hword : word ≠ 0) (hones : ~~~word ≠ 0) :
    IsLowestRun word word.ctz.toNat (~~~(word >>> word.ctz.toNat)).ctz.toNat := by
  set zeros := word.ctz.toNat with hzeros
  have hlowest : word.getLsbD zeros = true := getLsbD_true_ctz_of_ne_zero hword
  have hshift : ∀ b, (word >>> zeros).getLsbD b = word.getLsbD (zeros + b) :=
    fun b => getLsbD_ushiftRight ..
  -- After a shift the highest bit is a zero, and without one there is a zero anyway.
  have hrest : ~~~(word >>> zeros) ≠ 0 := by
    intro h
    by_cases hz : zeros = 0
    · rw [hz] at h
      exact hones h
    · have hbit : (~~~(word >>> zeros)).getLsbD 63 = true := by
        rw [getLsbD_not, hshift, getLsbD_of_ge _ _ (by omega)]
        rfl
      rw [h] at hbit
      simp at hbit
  set ones := (~~~(word >>> zeros)).ctz.toNat with hones'
  have hbelow : ∀ b, b < ones → word.getLsbD (zeros + b) = true := by
    intro b hb
    have hbit : (~~~(word >>> zeros)).getLsbD b = false := getLsbD_false_of_lt_ctz hb
    have hlt : ones < 64 := by
      have := ctz_lt_iff_ne_zero.2 hrest
      simpa [lt_def] using this
    simpa [show b < 64 by omega] using hbit
  have hpos : 0 < ones := by
    refine Nat.pos_of_ne_zero fun h => ?_
    have hbit : (~~~(word >>> zeros)).getLsbD ones = true :=
      getLsbD_true_ctz_of_ne_zero hrest
    rw [h, getLsbD_not, hshift, Nat.add_zero, hlowest] at hbit
    exact Bool.noConfusion hbit
  refine ⟨hpos, ?_, hbelow, fun b hb => ⟨?_, ?_⟩⟩
  · have hlast := lt_of_getLsbD (hbelow (ones - 1) (by omega))
    omega
  · by_contra hlt
    rw [getLsbD_false_of_lt_ctz (by omega)] at hb
    exact Bool.noConfusion hb
  · by_cases hlt : b < zeros + ones
    · exact .inl hlt
    · refine .inr ⟨Nat.le_of_not_lt hlt, ?_⟩
      rw [getLsbD_ushiftRight, hshift]
      rwa [show zeros + (ones + (b - (zeros + ones))) = b by omega]

/-- The fields of a column: the bits of its runs, which have a position and a length. -/
def runFields (runs : List (Nat × Nat)) (value : BitVec 64) : List (Nat × BitVec 64) :=
  runs.map fun run => (run.2, extract run.1 run.2 value)

lemma width_runFields (runs : List (Nat × Nat)) (value : BitVec 64) :
    width (runFields runs value) = (runs.map snd).sum := by
  rw [width, runFields, List.map_map]
  rfl

/-- The program for a word that is left of a column after some positions: it packs runs that cover
the bits of the word. -/
structure IsProgram (word : BitVec 64) (position offset : Nat) (runs : List (Nat × Nat))
    (column : List Shift3Instruction × Nat) : Prop where
  le : ∀ run ∈ runs, run.1 + run.2 ≤ 64
  covered : ∀ b, word.getLsbD b = true →
    ∃ run ∈ runs, run.1 ≤ position + b ∧ position + b < run.1 + run.2
  total : column.2 = offset + (runs.map snd).sum
  hash : column.2 ≤ 64 → ∀ value rest ret,
    hashColumn apply isLast value (column.1 ++ rest) ret =
      (rest, (shifted offset (runFields runs value)).foldl (· ^^^ ·) ret)

lemma isProgram_zero (position offset : Nat) :
    IsProgram 0 position offset [] ([⟨32, 0, 32, true⟩], offset) where
  le := by simp
  covered := by simp
  total := rfl
  hash _ value rest ret := by
    have happly : apply ⟨32, 0, 32, true⟩ value = 0 := by
      show (value <<< 32 >>> 0) <<< 32 = 0
      rw [ushiftRight_zero, ← shiftLeft_add]
      exact shiftLeft_eq_zero (by omega)
    show (rest, ret ^^^ apply ⟨32, 0, 32, true⟩ value) = (rest, ret)
    rw [happly]
    exact congrArg _ (BitVec.xor_zero ..)

/-- All bits of a column differ. -/
lemma isProgram_ones (word : BitVec 64) (offset : Nat) :
    IsProgram word 0 offset [(0, 64)] ([⟨0, 0, offset % 256, true⟩], offset + 64) where
  le := by simp
  covered b hb := ⟨_, List.mem_singleton_self _, by omega, by
    have := lt_of_getLsbD hb
    omega⟩
  total := rfl
  hash hle value rest ret := by
    have hoff : offset = 0 := by omega
    subst hoff
    show (rest, ret ^^^ apply ⟨0, 0, 0, true⟩ value) =
      (rest, ret ^^^ extract 0 64 value <<< 0)
    simp [apply, extract]

section Step

variable {word : BitVec 64} {position offset zeros ones : Nat}

def runInstruction (position offset zeros ones : Nat) (last : Bool) : Shift3Instruction :=
  ⟨(64 - position - zeros - ones) % 256, (64 - position - zeros - ones + (position + zeros)) % 256,
    offset % 256, last⟩

lemma apply_runInstruction (hle : position + zeros + ones ≤ 64) (hoff : offset ≤ 64) (last : Bool)
    (value : BitVec 64) : (runInstruction position offset zeros ones last).apply value =
      extract (position + zeros) ones value <<< offset := by
  have hleft0 : (64 - position - zeros - ones) % 256 = 64 - (position + zeros) - ones := by omega
  have hright1 : (64 - position - zeros - ones + (position + zeros)) % 256 = 64 - ones := by omega
  rw [runInstruction, hleft0, hright1, Nat.mod_eq_of_lt (by omega)]
  rfl

lemma shift3Runs_succ (hword : word ≠ 0) (hones : ~~~word ≠ 0) (hzeros' : word.ctz.toNat = zeros)
    (hones' : (~~~(word >>> zeros)).ctz.toNat = ones) (fuel : Nat) :
    shift3Runs (fuel + 1) word position offset = if word >>> zeros >>> ones = 0 then
        ([runInstruction position offset zeros ones true], offset + ones)
      else
        let rest := shift3Runs fuel (word >>> zeros >>> ones) (position + (zeros + ones))
          (offset + ones)
        (runInstruction position offset zeros ones false :: rest.1, rest.2) := by
  subst hzeros'
  subst hones'
  rw [shift3Runs, if_neg hword, if_neg hones]
  rfl

lemma isProgram_last (hrun : IsLowestRun word zeros ones) (hle : position + zeros + ones ≤ 64)
    (hrest : word >>> zeros >>> ones = 0) :
    IsProgram word position offset [(position + zeros, ones)]
      ([runInstruction position offset zeros ones true], offset + ones) where
  le := by simpa using hle
  covered b hb := by
    obtain ⟨hzeros, hlt⟩ := hrun.cases b hb
    rw [hrest] at hlt
    have hlt : b < zeros + ones := hlt.resolve_right (by simp)
    exact ⟨_, List.mem_singleton_self _, by show position + zeros ≤ _; omega,
      by show _ < position + zeros + ones; omega⟩
  total := rfl
  hash htot value rest ret := by
    show (rest, ret ^^^ (runInstruction position offset zeros ones true).apply value) =
      (rest, ret ^^^ extract (position + zeros) ones value <<< offset)
    rw [apply_runInstruction hle (by simp at htot; omega)]

variable {runs : List (Nat × Nat)}

/-- A run before others. -/
lemma IsProgram.cons {column : List Shift3Instruction × Nat} (hrun : IsLowestRun word zeros ones)
    (hle : position + zeros + ones ≤ 64)
    (h : IsProgram (word >>> zeros >>> ones) (position + (zeros + ones)) (offset + ones) runs
      column) :
    IsProgram word position offset ((position + zeros, ones) :: runs)
      (runInstruction position offset zeros ones false :: column.1, column.2) where
  le := by
    intro run hmem
    rcases List.mem_cons.1 hmem with rfl | hmem
    · exact hle
    · exact h.le run hmem
  covered b hb := by
    obtain ⟨hzeros, hlt | ⟨hge, hbit⟩⟩ := hrun.cases b hb
    · exact ⟨_, List.mem_cons_self, by show position + zeros ≤ _; omega,
        by show _ < position + zeros + ones; omega⟩
    · obtain ⟨run, hmem, hrun⟩ := h.covered _ hbit
      exact ⟨run, List.mem_cons_of_mem _ hmem, by omega, by omega⟩
  total := by
    show column.2 = offset + (ones + (runs.map snd).sum)
    rw [h.total, Nat.add_assoc]
  hash htot value rest ret := by
    have htot : column.2 ≤ 64 := htot
    have hoff := h.total
    show hashColumn apply isLast value (column.1 ++ rest)
        (ret ^^^ (runInstruction position offset zeros ones false).apply value) = _
    rw [apply_runInstruction hle (by omega), h.hash htot]
    rfl

end Step

/-- The loop over the bits of a column makes a program for them, and ends before the fuel does. -/
lemma exists_isProgram_shift3 {fuel : Nat} {word : BitVec 64} {position : Nat}
    (hword : IsBelow (64 - position) word) (hposition : position < 64)
    (hfuel : 64 - position ≤ fuel) (offset : Nat) :
    ∃ runs, IsProgram word position offset runs (shift3Runs fuel word position offset) := by
  induction fuel generalizing word position offset with
  | zero => omega
  | succ fuel ih =>
    by_cases hzero : word = 0
    · rw [hzero]
      exact ⟨[], isProgram_zero position offset⟩
    by_cases hones : ~~~word = 0
    · have hlast : word.getLsbD 63 = true := by
        have hbit : (~~~word).getLsbD 63 = false := by rw [hones]; simp
        simpa using hbit
      have hstart : position = 0 := by
        by_contra hne
        rw [hword 63 (by omega)] at hlast
        exact Bool.noConfusion hlast
      rw [shift3Runs, if_neg hzero, if_pos hones, hstart]
      exact ⟨_, isProgram_ones word offset⟩
    have hrun := isLowestRun_ctz hzero hones
    rw [shift3Runs_succ hzero hones rfl rfl]
    generalize word.ctz.toNat = zeros at hrun ⊢
    generalize (~~~(word >>> zeros)).ctz.toNat = ones at hrun ⊢
    have hlt : ∀ b, word.getLsbD b = true → b < 64 - position := by
      intro b hb
      by_contra hge
      rw [hword b (by omega)] at hb
      exact Bool.noConfusion hb
    have hle : position + zeros + ones ≤ 64 := by
      have hpos := hrun.pos
      have hlast := hlt _ (hrun.of_lt (ones - 1) (by omega))
      omega
    have hshift : ∀ b, (word >>> zeros >>> ones).getLsbD b = word.getLsbD (zeros + ones + b) := by
      intro b
      rw [getLsbD_ushiftRight, getLsbD_ushiftRight, Nat.add_assoc]
    by_cases hrest : word >>> zeros >>> ones = 0
    · rw [if_pos hrest]
      exact ⟨_, isProgram_last hrun hle hrest⟩
    · rw [if_neg hrest]
      obtain ⟨b, hb⟩ : ∃ b, (word >>> zeros >>> ones).getLsbD b = true := by
        by_contra hall
        push Not at hall
        exact hrest (eq_of_getLsbD_eq fun b _ => by simpa using hall b)
      have hbit := hlt _ (hshift b ▸ hb)
      have hbelow : IsBelow (64 - (position + (zeros + ones))) (word >>> zeros >>> ones) := by
        intro c hc
        rw [hshift]
        exact hword _ (by omega)
      obtain ⟨runs, hruns⟩ := ih hbelow (by omega) (by have := hrun.pos; omega) (offset + ones)
      exact ⟨_, hruns.cons hrun hle⟩

/-! ### Columns of runs -/

/-- Runs that cover the bits in which the elements of a column differ. -/
structure IsRuns (andOr : AndOr) (runs : List (Nat × Nat)) : Prop where
  isNarrow : andOr.IsNarrow
  le : ∀ run ∈ runs, run.1 + run.2 ≤ 64
  covered : ∀ b, (andOr.andValue ^^^ andOr.orValue).getLsbD b = true →
    ∃ run ∈ runs, run.1 ≤ b ∧ b < run.1 + run.2

/-- The fields of a row: the bits of the runs of each column. -/
def rowFields (types : List DataType) (columns : List (List (Nat × Nat)))
    (bits : List (BitVec 64)) : List (Nat × BitVec 64) :=
  (List.zipWith runFields columns (readElements types bits)).flatten

def columnsLength (columns : List (List (Nat × Nat))) : Nat :=
  (columns.map fun runs => (runs.map snd).sum).sum

lemma IsRuns.eq_of_runFields {runs : List (Nat × Nat)} (h : IsRuns andOr runs) {x y : BitVec 64}
    (hx : andOr.IsBetween x) (hy : andOr.IsBetween y)
    (heq : runFields runs (readElement andOr.type x) = runFields runs (readElement andOr.type y)) :
    x = y := by
  refine hx.eq_of_xor hy fun b hb => ?_
  obtain ⟨run, hmem, hge, hlt⟩ := h.covered b hb
  have hwidth : b < elementBits andOr.type := by
    by_contra hwide
    rw [getLsbD_xor, h.isNarrow.andValue b (Nat.le_of_not_lt hwide),
      h.isNarrow.orValue b (Nat.le_of_not_lt hwide)] at hb
    exact Bool.noConfusion hb
  have hfield := congrArg snd (List.map_inj_left.1 heq run hmem)
  have hbit := congrArg (fun word : BitVec 64 => word.getLsbD (b - run.1)) hfield
  simp only [getLsbD_extract (h.le run hmem)] at hbit
  rw [decide_eq_true (show b - run.1 < run.2 by omega),
    Nat.add_sub_cancel' hge] at hbit
  rw [← agreeBelow_read h.isNarrow.isKnown x b hwidth,
    ← agreeBelow_read h.isNarrow.isKnown y b hwidth]
  exact hbit

section

variable {andOrs : List AndOr} {columns : List (List (Nat × Nat))}
  (hcolumns : List.Forall₂ IsRuns andOrs columns)

include hcolumns

lemma width_rowFields (hbits : IsRow andOrs bits) :
    width (rowFields (andOrs.map type) columns bits) = columnsLength columns := by
  induction hcolumns generalizing bits with
  | nil => rfl
  | @cons andOr runs andOrs columns _ _ ih =>
    cases hbits with
    | @cons _ x _ bits _ hbits =>
      show width (runFields runs (readElement andOr.type x) ++ rowFields _ columns bits) = _
      rw [width_append, width_runFields, ih hbits]
      rfl

lemma isBelow_rowFields (hbits : IsRow andOrs bits) :
    ∀ field ∈ rowFields (andOrs.map type) columns bits, IsBelow field.1 field.2 := by
  induction hcolumns generalizing bits with
  | nil => simp [rowFields]
  | @cons andOr runs andOrs columns h _ ih =>
    cases hbits with
    | @cons _ x _ bits _ hbits =>
      intro field hfield
      rcases List.mem_append.1 hfield with hfield | hfield
      · obtain ⟨run, hrun, rfl⟩ := List.mem_map.1 hfield
        exact fun b hb => by simp [getLsbD_extract (h.le run hrun), Nat.not_lt.2 hb]
      · exact ih hbits field hfield

variable {bits bits' : List (BitVec 64)}

lemma fst_rowFields (hbits : IsRow andOrs bits) (hbits' : IsRow andOrs bits') :
    (rowFields (andOrs.map type) columns bits).map fst =
      (rowFields (andOrs.map type) columns bits').map fst := by
  induction hcolumns generalizing bits bits' with
  | nil => rfl
  | @cons andOr runs andOrs columns _ _ ih =>
    cases hbits with
    | @cons _ x _ bits _ hbits =>
      cases hbits' with
      | @cons _ y _ bits' _ hbits' =>
        show (runFields runs (readElement andOr.type x) ++ rowFields _ columns bits).map fst =
          (runFields runs (readElement andOr.type y) ++ rowFields _ columns bits').map fst
        rw [List.map_append, List.map_append, ih hbits hbits', runFields, runFields, List.map_map,
          List.map_map]
        rfl

lemma rowFields_injective (hbits : IsRow andOrs bits)
    (hbits' : IsRow andOrs bits') (heq : rowFields (andOrs.map type) columns bits =
      rowFields (andOrs.map type) columns bits') : bits = bits' := by
  induction hcolumns generalizing bits bits' with
  | nil =>
    cases hbits
    cases hbits'
    rfl
  | @cons andOr runs andOrs columns h _ ih =>
    cases hbits with
    | @cons _ x _ bits hx hbits =>
      cases hbits' with
      | @cons _ y _ bits' hy hbits' =>
        obtain ⟨hrun, hrest⟩ := List.append_inj heq (by simp [runFields])
        rw [h.eq_of_runFields hx hy hrun, ih hbits hbits' hrest]

end

lemma exists_isProgram (h : andOr.IsNarrow) (offset : Nat) :
    ∃ runs, IsRuns andOr runs ∧ IsProgram (andOr.andValue ^^^ andOr.orValue) 0 offset runs
      (shift3Runs 64 (andOr.andValue ^^^ andOr.orValue) 0 offset) := by
  have hword : IsBelow (64 - 0) (andOr.andValue ^^^ andOr.orValue) :=
    fun b hb => getLsbD_of_ge _ b hb
  obtain ⟨runs, hruns⟩ := exists_isProgram_shift3 hword (by omega) (Nat.le_refl 64) offset
  refine ⟨runs, ⟨h, hruns.le, fun b hb => ?_⟩, hruns⟩
  obtain ⟨run, hmem, hge, hlt⟩ := hruns.covered b hb
  exact ⟨run, hmem, by omega, by omega⟩

lemma exists_columns_shift3
    (hnarrow : ∀ andOr ∈ andOrs, andOr.IsNarrow) (offset : Nat) :
    ∃ columns, List.Forall₂ IsRuns andOrs columns ∧
      (shift3Instructions andOrs offset).2 = offset + columnsLength columns ∧
      ((shift3Instructions andOrs offset).2 ≤ 64 → ∀ bits, IsRow andOrs bits → ∀ word,
        instructionHash apply isLast
            (readElements (andOrs.map type) bits) (shift3Instructions andOrs offset).1 word =
          (shifted offset (rowFields (andOrs.map type) columns bits)).foldl (· ^^^ ·) word) := by
  induction andOrs generalizing offset with
  | nil =>
    refine ⟨[], .nil, rfl, fun _ bits hbits word => ?_⟩
    cases hbits
    rfl
  | cons andOr andOrs ih =>
    obtain ⟨runs, hisRuns, hprogram⟩ := exists_isProgram (hnarrow andOr List.mem_cons_self) offset
    rw [shift3Instructions]
    set column := shift3Runs 64 (andOr.andValue ^^^ andOr.orValue) 0 offset
    obtain ⟨columns, hcolumns, htot, hhash⟩ :=
      ih (fun a ha => hnarrow a (List.mem_cons_of_mem _ ha)) column.2
    have hsum : columnsLength (runs :: columns) = (runs.map snd).sum + columnsLength columns :=
      rfl
    have hcol := hprogram.total
    refine ⟨runs :: columns, .cons hisRuns hcolumns, by simp only; omega, ?_⟩
    intro hle bits hbits word
    cases hbits with
    | @cons _ x _ bits _ hbits =>
      show instructionHash apply isLast
          (readElements (andOrs.map type) bits)
          (hashColumn apply isLast (readElement andOr.type x)
            (column.1 ++ (shift3Instructions andOrs column.2).1) word).1
          (hashColumn apply isLast (readElement andOr.type x)
            (column.1 ++ (shift3Instructions andOrs column.2).1) word).2 =
        (shifted offset (runFields runs (readElement andOr.type x) ++
          rowFields (andOrs.map type) columns bits)).foldl (· ^^^ ·) word
      rw [hprogram.hash (by omega), hhash hle bits hbits, shifted_append, width_runFields,
        List.foldl_append, hcol]

lemma isEncoding_shift3 (hnarrow : ∀ andOr ∈ andOrs, andOr.IsNarrow)
    (htot : (makeShift3Hasher andOrs).totalSignificantBits ≤ 64) :
    ∃ fields, IsEncoding (makeShift3Hasher andOrs) andOrs fields := by
  obtain ⟨columns, hcolumns, hlen, hhash⟩ := exists_columns_shift3 hnarrow 0
  have hpack : ∀ bits, IsRow andOrs bits →
      (makeShift3Hasher andOrs).hash (andOrs.map type) bits =
        pack (rowFields (andOrs.map type) columns bits) := by
    intro bits hbits
    rw [makeShift3Hasher, Hasher.hash, hhash htot bits hbits, foldl_xor_shifted]
    simp
  have hwidth : ∀ bits, IsRow andOrs bits → width (rowFields (andOrs.map type) columns bits) =
        (makeShift3Hasher andOrs).totalSignificantBits := by
    intro bits hbits
    rw [width_rowFields hcolumns hbits, makeShift3Hasher, Hasher.totalSignificantBits, hlen,
      Nat.zero_add]
  refine ⟨rowFields (andOrs.map type) columns, hpack, hwidth, fun bits bits' hbits hbits' => ?_,
    fun bits bits' => rowFields_injective hcolumns, fun bits hbits => ?_⟩
  · exact determined_of_isBelow (fst_rowFields hcolumns hbits hbits')
      (isBelow_rowFields hcolumns hbits) (isBelow_rowFields hcolumns hbits')
  · rw [hpack bits hbits, ← hwidth bits hbits]
    exact (isBelow_pack (isBelow_rowFields hcolumns hbits)).isFilled

end Gqe.PerfectHash
