import Gqe.Like.Pattern

/-!
# The search for the middle parts

Within a string, the automaton accepts exactly if the parts occur in order and without overlap; the
early exit and the batches make no difference. If the length of the string has wrapped around, the
early exit is never taken, and the search goes on until the parts are found or the characters of
the column end.
-/

namespace Gqe.Like

open Wildcard ShiftAnd List SearchState PatternChar

/-! ### Mask tables -/

/-- The characters that a mask table lets a cell stand for. -/
def PatternChar.fitsIn (encoding : EncodingTag) (k : PatternChar) (c : UInt8) : Bool :=
  decide (encoding = .ascii ∧ k.isWildcard) || decide (c = k.char)

lemma PatternChar.fitsIn_ascii : fitsIn .ascii = fits := by
  funext k c
  simp [fitsIn, fits]

lemma isMask_maskTable (w : Nat) (encoding : EncodingTag) (p : SubPattern) :
    IsMask (fitsIn encoding) p (maskTable w encoding p) := by
  intro c j hj
  -- after some cells, the table has their bits
  have hfold : ∀ (p : SubPattern) (n : Nat) (mask : UInt8 → BitVec w),
      ((p.zipIdx n).foldl (fun mask x c =>
        if (encoding = .ascii ∧ x.1.isWildcard) ∨ c = x.1.char then mask c ||| (1#w <<< x.2)
        else mask c) mask c).getLsbD j = true ↔
      (mask c).getLsbD j = true ∨ n ≤ j ∧ ∃ k, p[j - n]? = some k ∧ k.fitsIn encoding c := by
    intro p
    induction p with
    | nil => simp
    | cons k p ih =>
      intro n mask
      have hcell : (if (encoding = .ascii ∧ k.isWildcard) ∨ c = k.char then mask c ||| (1#w <<< n)
          else mask c).getLsbD j = true ↔
          (mask c).getLsbD j = true ∨ j = n ∧ k.fitsIn encoding c := by
        split_ifs with hk
        · have hfits : k.fitsIn encoding c = true := by simpa [fitsIn] using hk
          rw [BitVec.getLsbD_or, Bool.or_eq_true, hfits]
          refine or_congr_right ?_
          simp
          omega
        · simp [fitsIn, not_or.1 hk]
      rw [zipIdx_cons, foldl_cons, ih, hcell, or_assoc]
      refine or_congr_right ?_
      rcases lt_trichotomy j n with hlt | rfl | hgt
      · simp [hlt.ne, Nat.not_le.2 hlt, Nat.not_le.2 (Nat.lt_succ_of_lt hlt)]
      · simp
      · obtain ⟨i, rfl⟩ := Nat.exists_eq_add_of_lt hgt
        have hsub : n + i + 1 - n = i + 1 := by omega
        simp [hsub, hgt.ne', hgt.le]
  simpa [maskTable] using hfold p 0 fun _ => 0#w

/-! ### Machine integers -/

lemma toSize_eq (x : Int) : (toSize x : Int) = x % 2 ^ 64 := by
  rw [toSize]
  omega

variable {x : Int}

lemma toSize_of_nonneg (h : 0 ≤ x) (hlt : x < 2 ^ 64) : (toSize x : Int) = x := by
  rw [toSize_eq]
  omega

lemma toSize_of_neg (h : x < 0) (hle : -2 ^ 64 ≤ x) : (toSize x : Int) = x + 2 ^ 64 := by
  rw [toSize_eq]
  omega

/-- An addition of type `size_t` whose result is converted back to `int`. -/
lemma toInt_toSize_add {n : Nat} (hle : -2 ^ 31 ≤ x + n) (hlt : x + n < 2 ^ 31) :
    toInt (toSize x + n) = x + n := by
  have hsz := toSize_eq x
  unfold toInt
  rw [Int.bmod_def]
  omega

lemma toSize_add_two_pow (x : Int) : toSize (x + 2 ^ 64) = toSize x := by
  have h := toSize_eq x
  have h' := toSize_eq (x + 2 ^ 64)
  omega

lemma toInt_toSize (hle : -2 ^ 31 ≤ x) (hlt : x < 2 ^ 31) : toInt (toSize x) = x := by
  simpa using toInt_toSize_add (n := 0) (by simpa using hle) (by simpa using hlt)

/-! ### One character -/

section
variable {w : Nat} {encoding : EncodingTag} {base : Int} {p : SubPattern} {ps : List SubPattern}
  {u : List UInt8} {s : SearchState w}

def totalLength (ps : List SubPattern) : Nat := (ps.map length).sum

@[simp] lemma totalLength_cons : totalLength (p :: ps) = p.length + totalLength ps := by
  simp [totalLength]

lemma totalLength_le {qs : List SubPattern} (h : qs <:+ ps) :
    totalLength qs ≤ totalLength ps := by
  obtain ⟨rs, rfl⟩ := h
  simp [totalLength]

/-- The search for `p`, after which it goes on with `ps`, has read `u`. -/
structure SearchState.Follows (encoding : EncodingTag) (base : Int) (p : SubPattern)
    (ps : List SubPattern) (u : List UInt8) (s : SearchState w) : Prop where
  current : s.current = ⟨maskTable w encoding p, p.length⟩
  rest : s.rest = generateShiftAndMaskTables w encoding ps
  tracks : Tracks (fitsIn encoding) p u s.state
  first : ¬ Occur (fitsIn encoding) [p] u
  farthestStart : s.farthestStart = base - totalLength (p :: ps)

/-- A part can be searched for with masks of the width. -/
def Searchable (w : Nat) (p : SubPattern) : Prop := p ≠ [] ∧ p.length ≤ w

/-- One character: the last part was found, or the search goes on with the rest of the string, for
the same part or the next. -/
lemma SearchState.Follows.step (h : s.Follows encoding base p ps u)
    (hps : ∀ q ∈ p :: ps, Searchable w q) (hle : -2 ^ 31 ≤ base - totalLength (p :: ps))
    (hlt : base < 2 ^ 31) (i : Nat) (c : UInt8) :
    (s.step i c = .error true ∧ ∀ v, Occur (fitsIn encoding) (p :: ps) (u ++ c :: v)) ∨
    ∃ p' ps' u' s', Follows encoding base p' ps' u' s' ∧ (p' :: ps') <:+ (p :: ps) ∧
      (∀ v, Occur (fitsIn encoding) (p' :: ps') (u' ++ v) ↔
        Occur (fitsIn encoding) (p :: ps) (u ++ c :: v)) ∧ s.step i c = s'.checkExit i := by
  obtain ⟨hne, hw⟩ := hps p (by simp)
  have htracks := h.tracks.shift (isMask_maskTable w encoding p) c
  have hacc := htracks.accepts hw hne
  have hmask : s.current.mask = maskTable w encoding p := by rw [h.current]
  have hlen : s.current.length = p.length := by rw [h.current]
  rw [← hmask, ← hlen] at hacc
  rw [← hmask] at htracks
  by_cases hend : EndsWith (fitsIn encoding) p (u ++ [c])
  · have hfound : ∀ ps v, Occur (fitsIn encoding) (p :: ps) (u ++ c :: v) ↔
        Occur (fitsIn encoding) ps v := fun _ _ =>
      occur_cons_iff_of_endsWith h.first hend
    cases ps with
    | nil =>
      refine .inl ⟨?_, fun v => (hfound [] v).2 trivial⟩
      rw [step, if_pos (hacc.2 hend), h.rest]
      rfl
    | cons p' ps =>
      -- the search for the next part starts here
      obtain ⟨hne', -⟩ := hps p' (by simp)
      refine .inr ⟨p', ps, [], ⟨0#w, ⟨maskTable w encoding p', p'.length⟩,
        generateShiftAndMaskTables w encoding ps, base - totalLength (p' :: ps)⟩,
        ⟨rfl, rfl, tracks_zero, ?_, rfl⟩, suffix_cons _ _, fun v => (hfound _ v).symm, ?_⟩
      · exact fun hocc => hne' (by simpa using hocc.sum_length_le)
      · have hfarthest := h.farthestStart
        rw [totalLength_cons] at hfarthest hle
        rw [step, if_pos (hacc.2 hend), h.rest, generateShiftAndMaskTables, map_cons]
        rw [Except.bind, toInt_toSize_add (by omega) (by omega)]
        congr 2
        omega
  · refine .inr ⟨p, ps, u ++ [c], { s with state := shift s.state (s.current.mask c) },
      ⟨h.current, h.rest, htracks, ?_, h.farthestStart⟩, suffix_refl _, fun v => by simp, ?_⟩
    · exact fun hocc => (occur_singleton_concat.1 hocc).elim h.first hend
    · rw [SearchState.step, if_neg fun h => hend (hacc.1 h)]
      rw [Except.bind]

/-! ### A whole string -/

def verdict : Except Bool (SearchState w) → Bool
  | .error result => result
  | .ok _ => false

variable {v : List UInt8}

/-- No part can be missed by the early exit: those that remain are longer than what is left. -/
lemma SearchState.Follows.not_occur_of_exit {n i : Nat} (hi : i + 1 + v.length = n)
    (hn : n < 2 ^ 31) (h : s.Follows encoding n p ps u) (hp : Searchable w p)
    (htot : totalLength (p :: ps) ≤ n) (hexit : toSize s.farthestStart < i ∧ s.state = 0#w) :
    ¬ Occur (fitsIn encoding) (p :: ps) (u ++ v) := by
  rw [occur_cons_append_iff h.first (h.tracks.not_endsWith hp.2 hexit.2)]
  intro hocc
  have hlen : totalLength (p :: ps) ≤ v.length := hocc.sum_length_le
  have hsz := toSize_of_nonneg (x := s.farthestStart) (by rw [h.farthestStart]; omega)
  have hlt := hexit.1
  rw [h.farthestStart] at hsz hlt
  omega

variable {i : Nat}

/-- A search within a string of `n` characters, of which `i` have been read. -/
lemma SearchState.Follows.verdict_steps {n : Nat} (hn : n < 2 ^ 31) (hi : i + v.length = n)
    (h : s.Follows encoding n p ps u) (hps : ∀ q ∈ p :: ps, Searchable w q)
    (htot : totalLength (p :: ps) ≤ n) :
    verdict (s.steps i v) ↔ Occur (fitsIn encoding) (p :: ps) (u ++ v) := by
  induction v generalizing i p ps u s with
  | nil =>
    have hnot : ¬ Occur (fitsIn encoding) (p :: ps) u := fun ⟨a, b, c, hu, hb, _⟩ =>
      h.first ⟨a, b, c, hu, hb, trivial⟩
    simpa [steps, verdict] using hnot
  | cons c v ih =>
    rw [steps]
    rcases h.step hps (by omega) (by omega) i c with
      ⟨hstep, hocc⟩ | ⟨p', ps', u', s', h', hsuf, hocc, hstep⟩
    · rw [hstep, Except.bind, verdict]
      simpa using hocc v
    · have hps' : ∀ q ∈ p' :: ps', Searchable w q := fun q hq => hps q (hsuf.subset hq)
      have htot' := (totalLength_le hsuf).trans htot
      have hi' : i + 1 + v.length = n := by
        rw [length_cons] at hi
        omega
      rw [← hocc v, hstep, checkExit]
      split_ifs with hexit
      · rw [Except.bind, verdict]
        simpa using h'.not_occur_of_exit hi' hn (hps' p' (by simp)) htot' hexit
      · exact ih hi' h' hps' htot'

/-! ### Batches -/

lemma SearchState.steps_append (i : Nat) (a b : List UInt8) (s : SearchState w) :
    s.steps i (a ++ b) = (s.steps i a).bind (steps (i + a.length) b) := by
  induction a generalizing i s with
  | nil => simp [steps, Except.bind]
  | cons c a ih =>
    rw [cons_append, steps, steps]
    cases s.step i c with
    | error result => rfl
    | ok s =>
      rw [Except.bind, Except.bind, ih, length_cons, Nat.add_assoc, Nat.add_comm 1]

variable {size : Nat}

section
variable {read : Nat → Option UInt8} {string : List UInt8}
  (hread : ∀ i < string.length, read i = string[i]?)
include hread

lemma mapM_read (h : i + size ≤ string.length) :
    (range' i size).mapM read = some ((string.drop i).take size) := by
  induction size generalizing i with
  | zero => simp
  | succ size ih =>
    have hi : i < string.length := by omega
    rw [range'_succ, mapM_cons, hread i hi, getElem?_eq_getElem hi,
      ih (by omega), drop_eq_getElem_cons hi]
    rfl

/-- Batches make no difference where all characters can be read. -/
lemma SearchState.batches_eq {numBatches i : Nat} (h : i + size * numBatches ≤ string.length)
    (s : SearchState w) : s.batches read size numBatches i =
      some (s.steps i ((string.drop i).take (size * numBatches))) := by
  induction numBatches generalizing i s with
  | zero => simp [batches, steps]
  | succ n ih =>
    rw [Nat.mul_succ] at h
    rw [batches, mapM_read hread (by omega), Nat.mul_succ, Nat.add_comm (size * n),
      take_add, steps_append, drop_drop]
    have hlen : ((string.drop i).take size).length = size := by
      rw [length_take, length_drop]
      omega
    rw [hlen, Option.bind_eq_bind, Option.bind_some]
    cases s.steps i ((string.drop i).take size) with
    | error result => rfl
    | ok s =>
      exact ih (by omega) s

lemma SearchState.batches_batches_eq (s : SearchState w) : (do
      match ← s.batches read 4 (string.length / 4) 0 with
      | .error result => return result
      | .ok s =>
        match ← s.batches read 1 (string.length % 4) (string.length / 4 * 4) with
        | .error result => return result
        | .ok _ => return false) = some (verdict (s.steps 0 string)) := by
  have hsplit : string = string.take (4 * (string.length / 4)) ++
      (string.drop (string.length / 4 * 4)).take (1 * (string.length % 4)) := by
    rw [take_of_length_le (l := string.drop _) (by rw [length_drop]; omega),
      Nat.mul_comm 4, take_append_drop]
  have hlen : (string.take (4 * (string.length / 4))).length = string.length / 4 * 4 := by
    rw [length_take]
    omega
  have hrest := batches_eq (w := w) hread
    (show string.length / 4 * 4 + 1 * (string.length % 4) ≤ string.length by omega)
  conv_rhs => rw [hsplit, steps_append, hlen, Nat.zero_add]
  rw [batches_eq hread (by omega), drop_zero, Option.bind_eq_bind, Option.bind_some]
  cases s.steps 0 (string.take (4 * (string.length / 4))) with
  | error result => rfl
  | ok s =>
    simp only [hrest, Except.bind]
    cases s.steps (string.length / 4 * 4)
      ((string.drop (string.length / 4 * 4)).take (1 * (string.length % 4))) <;> rfl

/-- The search within a string accepts it exactly if the parts occur. -/
lemma checkMultiBytewise_eq (hn : string.length < 2 ^ 31)
    (hps : ∀ q ∈ ps, Searchable w q) : ∃ result, checkMultiPatternMatchBytewise read string.length
        (generateShiftAndMaskTables w encoding ps) (totalLength ps) = some result ∧
      (result = true ↔ Occur (fitsIn encoding) ps string) := by
  rcases ps with _ | ⟨p, ps⟩
  · exact ⟨true, rfl, by simp [Occur]⟩
  rw [generateShiftAndMaskTables, map_cons, checkMultiPatternMatchBytewise]
  by_cases htot : totalLength (p :: ps) ≤ string.length
  · rw [if_pos htot]
    refine ⟨_, batches_batches_eq hread _, ?_⟩
    refine Follows.verdict_steps (u := []) hn (by simp) ⟨rfl, rfl, tracks_zero, ?_, ?_⟩
      hps htot
    · exact fun hocc => (hps p (by simp)).1 (by simpa using hocc.sum_length_le)
    · rw [subSize, toInt_toSize (by omega) (by omega)]
  · refine ⟨false, if_neg htot, ?_⟩
    simpa using fun hocc => htot (Occur.sum_length_le hocc)

end

/-! ### Lengths that have wrapped around -/

/-- With a length that has wrapped around, the early exit is not taken. -/
lemma SearchState.Follows.steps_of_neg (hbase : base < 0) (hi : i + v.length ≤ 2 ^ 63)
    (h : s.Follows encoding base p ps u) (hps : ∀ q ∈ p :: ps, Searchable w q)
    (hle : -2 ^ 31 ≤ base - totalLength (p :: ps)) :
    s.steps i v = .error true ∨ ∃ p' ps' u' s', Follows encoding base p' ps' u' s' ∧
      (p' :: ps') <:+ (p :: ps) ∧ s.steps i v = .ok s' := by
  induction v generalizing i p ps u s with
  | nil => exact .inr ⟨p, ps, u, s, h, suffix_refl _, rfl⟩
  | cons c v ih =>
    rw [steps]
    rcases h.step hps hle (by omega) i c with
      ⟨hstep, -⟩ | ⟨p', ps', u', s', h', hsuf, -, hstep⟩
    · rw [hstep]
      exact .inl rfl
    · have htot := totalLength_le hsuf
      rw [length_cons] at hi
      have hexit : ¬ (toSize s'.farthestStart < i ∧ s'.state = 0#w) := by
        have hsz := toSize_of_neg (x := s'.farthestStart) (by rw [h'.farthestStart]; omega)
        rw [h'.farthestStart] at hsz ⊢
        omega
      rw [hstep, checkExit, if_neg hexit]
      rcases ih (show i + 1 + v.length ≤ 2 ^ 63 by omega) h' (fun q hq => hps q (hsuf.subset hq))
        (by omega) with
        herr | ⟨p'', ps'', u'', s'', h'', hsuf', hok⟩
      · exact .inl herr
      · exact .inr ⟨p'', ps'', u'', s'', h'', hsuf'.trans hsuf, hok⟩

section
variable {read : Nat → Option UInt8} {bound : Nat} (hread : ∀ i, bound ≤ i → read i = none)
include hread

lemma add_le_of_mapM_read {chars : List UInt8} (h : (range' i size).mapM read = some chars) :
    chars.length = size ∧ (0 < size → i + size ≤ bound) := by
  induction size generalizing i chars with
  | zero =>
    obtain rfl : [] = chars := by simpa using h
    simp
  | succ size ih =>
    rw [range'_succ, mapM_cons] at h
    obtain ⟨c, hc, h⟩ := Option.bind_eq_some_iff.1 h
    obtain ⟨cs, hcs, h⟩ := Option.bind_eq_some_iff.1 h
    obtain rfl : c :: cs = chars := Option.some.inj h
    obtain ⟨hlen, hle⟩ := ih hcs
    have hi : i < bound := by
      by_contra hi
      simp [hread i (by omega)] at hc
    refine ⟨by simp [hlen], fun _ => ?_⟩
    rcases Nat.eq_zero_or_pos size with rfl | hpos
    · omega
    · omega

/-- The search does not end before the characters do, unless it finds all parts. -/
lemma SearchState.Follows.batches_of_neg (hbase : base < 0) (hbound : bound ≤ 2 ^ 63)
    (hsz : 0 < size) {numBatches i : Nat} (hi : i ≤ bound) (hend : bound < i + size * numBatches)
    (h : s.Follows encoding base p ps u) (hps : ∀ q ∈ p :: ps, Searchable w q)
    (hle : -2 ^ 31 ≤ base - totalLength (p :: ps)) : s.batches read size numBatches i = none ∨
      s.batches read size numBatches i = some (.error true) := by
  induction numBatches generalizing i p ps u s with
  | zero => omega
  | succ n ih =>
    rw [batches]
    cases hmap : (range' i size).mapM read with
    | none => exact .inl rfl
    | some chars =>
      obtain ⟨hlen, hle'⟩ := add_le_of_mapM_read hread hmap
      have hle' := hle' hsz
      rw [Option.bind_eq_bind, Option.bind_some]
      rcases h.steps_of_neg hbase (show i + chars.length ≤ 2 ^ 63 by omega) hps hle with
        herr | ⟨p', ps', u', s', h', hsuf, hok⟩
      · rw [herr]
        exact .inr rfl
      · rw [hok]
        have htot := totalLength_le hsuf
        refine ih hle' (by rw [Nat.mul_succ] at hend; omega) h'
          (fun q hq => hps q (hsuf.subset hq)) (by omega)

/-- A search with a length that has wrapped around does not reject. -/
lemma checkMultiBytewise_of_neg (hbase : base < 0) (hbound : bound ≤ 2 ^ 63)
    (hps : ∀ q ∈ ps, Searchable w q) (hle : -2 ^ 31 ≤ base - totalLength ps) :
    checkMultiPatternMatchBytewise read (toSize base) (generateShiftAndMaskTables w encoding ps)
      (totalLength ps) ≠ some false := by
  rcases ps with _ | ⟨p, ps⟩
  · simp [generateShiftAndMaskTables, checkMultiPatternMatchBytewise]
  have hsz := toSize_of_neg hbase (by omega)
  have htot : totalLength (p :: ps) ≤ toSize base := by omega
  have hstart : toInt (subSize (toSize base) (totalLength (p :: ps))) =
      base - totalLength (p :: ps) := by
    have hshift : base + 2 ^ 64 - totalLength (p :: ps) =
        base - totalLength (p :: ps) + 2 ^ 64 := by
      omega
    rw [subSize, hsz, hshift, toSize_add_two_pow, toInt_toSize (by omega) (by omega)]
  rw [generateShiftAndMaskTables, map_cons, checkMultiPatternMatchBytewise, if_pos htot]
  simp only [hstart]
  have h : Follows encoding base p ps [] (⟨0#w, ⟨maskTable w encoding p, p.length⟩,
      generateShiftAndMaskTables w encoding ps, base - totalLength (p :: ps)⟩ : SearchState w) :=
    ⟨rfl, rfl, tracks_zero,
      fun hocc => (hps p (by simp)).1 (by simpa using hocc.sum_length_le), rfl⟩
  rcases h.batches_of_neg hread hbase hbound (show 0 < 4 by decide) (Nat.zero_le bound)
    (show bound < 0 + 4 * (toSize base / 4) by omega) hps hle with hnone | htrue
  · rw [generateShiftAndMaskTables] at hnone
    simp [hnone, -totalLength_cons]
  · rw [generateShiftAndMaskTables] at htrue
    simp [htrue, -totalLength_cons]

end

end

/-! ### Strings and patterns -/

/-- The search accepts a string exactly if the patterns match it in order, one after another. The
length of a string is a `cudf::size_type`, below `2 ^ 31`. -/
theorem checkMultiPatternMatchBytewise_eq_true_iff (w : Nat) (encoding : EncodingTag)
    {ps : List SubPattern} (hps : ∀ p ∈ ps, p ≠ [] ∧ p.length ≤ w) {string : List UInt8}
    (hlen : string.length < 2 ^ 31) :
    ∃ result, checkMultiPatternMatchBytewise (string[·]?) string.length
        (generateShiftAndMaskTables w encoding ps) (totalLength ps) = some result ∧
      (result = true ↔ Occur (fitsIn encoding) ps string) :=
  checkMultiBytewise_eq (fun _ _ => rfl) hlen hps

theorem checkMultiPatternMatchBytewise_abab :
    ∃ result, checkMultiPatternMatchBytewise (([97, 98, 97, 98] : List UInt8)[·]?) 4
        (generateShiftAndMaskTables 8 .ascii [[⟨97, false⟩, ⟨0, true⟩], [⟨98, false⟩]]) 3 =
          some result ∧
      (result = true ↔ Occur (fitsIn .ascii) [[⟨97, false⟩, ⟨0, true⟩], [⟨98, false⟩]]
        [97, 98, 97, 98]) :=
  checkMultiPatternMatchBytewise_eq_true_iff 8 .ascii (by decide) (by decide)

end Gqe.Like
