import Gqe.Like.Kernel

/-!
# Correctness of LIKE

The result is that of SQL for every pattern with a wildcard for any sequence, on strings at least as
long as its prefix and suffix together. A pattern without one is matched as if it had one at its
end, shorter strings are not compared with the whole prefix and suffix, and a last `%` after an
escaped escape character is taken for an escaped one.
-/

namespace Gqe.Like

open Wildcard List PatternChar Cell

variable {e : UInt8} {pattern : List UInt8} {items : List (Item PatternChar)}

/-! ### Long strings -/

/-- Where the language of the parts is that of the pattern. -/
def LongCorrect (e : UInt8) (pattern : List UInt8) (items : List (Item PatternChar))
    (string : List UInt8) : Prop :=
  let parts := partsOf e pattern items
  (.many ∉ items → string.length = items.length ∨
    ¬ Decomposes fits parts.first [] parts.last string) ∧
  (items.getLast? = some .many → EscapeBeforeLast e pattern →
    matchesPattern fits items string → EndsWith fits parts.last string)

lemma length_segments_of_no_many (h : .many ∉ items) :
    (segments items).1.length = items.length := by
  induction items with
  | nil => rfl
  | cons i items ih =>
    cases i with
    | cell k => simp [ih (by simpa using h)]
    | many => simp at h

/-- The language of the parts of a pattern. -/
def Parts.Accepts (parts : Parts) (string : List UInt8) : Prop :=
  Decomposes fits parts.first parts.middle parts.last string

/-- A pattern with a wildcard for any sequence. -/
lemma longCorrect_iff_of_many (hmany : .many ∈ items) (string : List UInt8) :
    (matchesPattern fits items string ↔ (partsOf e pattern items).Accepts string) ↔
      LongCorrect e pattern items string := by
  obtain ⟨ps, q, hsegs⟩ := (eq_nil_or_concat' (segments items).2).resolve_left fun hnil =>
    segments_snd_eq_nil.1 hnil hmany
  have hmatches : matchesPattern fits items string ↔ Decomposes fits
      (segments items).1 (ps.filter (· ≠ [])) q string := by
    rw [decomposes_filter_ne_nil, matches_iff_decomposes hsegs]
  simp only [LongCorrect, Parts.Accepts, partsOf, hsegs, getLast?_concat, dropLast_concat, hmany,
    not_true_eq_false, false_imp_iff, true_and, ← last_segment_eq_nil hsegs, hmatches]
  by_cases htaken : q = [] ∧ EscapeBeforeLast e pattern
  · obtain ⟨rfl, hesc⟩ := htaken
    simp only [hesc, and_self, if_true, true_imp_iff]
    rcases eq_nil_or_concat' (ps.filter (· ≠ [])) with hnil | ⟨ps', q', hcat⟩
    · simp only [hnil, dropLast_nil, getLastD_nil, true_iff]
      exact fun _ => ⟨string, [], by simp, .nil⟩
    · -- the wildcard at the end is lost
      simp only [hcat, dropLast_concat, getLastD_concat]
      constructor
      · exact fun hiff hmatch => (decomposes_iff_endsWith.1 (hiff.1 hmatch)).2
      · exact fun hends => ⟨fun hmatch => decomposes_iff_endsWith.2 ⟨hmatch, hends hmatch⟩,
          fun hparts => (decomposes_iff_endsWith.1 hparts).1⟩
  · rw [if_neg htaken]
    simp only [true_iff]
    exact fun hq hesc => absurd ⟨hq, hesc⟩ htaken

section
variable (h : Parses e pattern items)
include h

/-- A pattern without a wildcard for any sequence. -/
lemma Parses.longCorrect_iff_of_no_many (hmany : .many ∉ items) (string : List UInt8) :
    (matchesPattern fits items string ↔ (partsOf e pattern items).Accepts string) ↔
      LongCorrect e pattern items string := by
  have hsegs := segments_snd_eq_nil.2 hmany
  have hmid : (partsOf e pattern items).middle = [] := by
    simp only [partsOf, hsegs, getLast?_nil]
    split_ifs <;> rfl
  have hflat := h.flatten_parts
  rw [hmid, hsegs, flatten_nil, nil_append, append_nil] at hflat
  have hlen : (partsOf e pattern items).first.length + (partsOf e pattern items).last.length =
      items.length := by
    rw [← length_append, hflat, length_segments_of_no_many hmany]
  have hlast : items.getLast? ≠ some .many := fun hlast => hmany (mem_of_getLast? hlast)
  rw [matches_iff_fits hsegs, Parts.Accepts, hmid, ← hflat]
  simp only [LongCorrect, hmany, hlast, not_false_eq_true, true_imp_iff, false_imp_iff, and_true]
  constructor
  · intro hiff
    by_cases hstr : string.length = items.length
    · exact .inl hstr
    · refine .inr fun hdec => hstr ?_
      rw [← (hiff.2 hdec).length_eq, length_append, hlen]
  · rintro (hstr | hnot)
    · exact (decomposes_iff_fits (hstr.trans hlen.symm)).symm
    · refine iff_of_false (fun hfits => hnot ?_) hnot
      exact (decomposes_iff_fits (by rw [← hfits.length_eq, length_append])).2 hfits

/-! ### Short strings -/

lemma Parses.not_matches_of_lt {string : List UInt8} (hlt : string.length <
      (partsOf e pattern items).first.length + (partsOf e pattern items).last.length) :
    ¬ matchesPattern fits items string := by
  intro hmatch
  have hlen := length_le_of_matches hmatch
  have hflat := congrArg List.length h.flatten_parts
  simp only [length_append] at hflat
  omega

lemma Parses.length_parts_le :
    (partsOf e pattern items).first.length + (partsOf e pattern items).last.length +
      totalLength (partsOf e pattern items).middle ≤ pattern.length := by
  have hflat := congrArg List.length h.flatten_parts
  have hsegs := length_segments_le items
  have hitems := h.length_le
  simp only [length_append, length_flatten, totalLength] at hflat hsegs ⊢
  omega

end

/-! ### The language of the parts -/

lemma getLast?_cells_cons {k : PatternChar} (h : (cells items).getLast? = some k)
    (i : Item PatternChar) : (cells (i :: items)).getLast? = some k := by
  cases i with
  | cell k' =>
    have hne : cells items ≠ [] := fun hnil => by simp [hnil] at h
    exact (getLast?_cons_of_ne_nil hne).trans h
  | many => exact h

/-- The escape character before a `%` that is not escaped is an escaped one. -/
lemma Parses.getLast?_cells (h : Parses e pattern items) (hlast : items.getLast? = some .many)
    (hesc : EscapeBeforeLast e pattern) : (cells items).getLast? = some ⟨e, false⟩ := by
  induction h with
  | nil => simp at hlast
  | @escaped d rest items h ih =>
    rcases rest with _ | ⟨c, _ | ⟨c', rest⟩⟩
    · cases h
      simp at hlast
    · obtain _ | _ | ⟨_, ⟨⟩⟩ := h
      have hd : d = e := by simpa [EscapeBeforeLast] using hesc
      have hc : plainItem c = .many := by simpa using hlast
      simp [hd, hc, cells]
    · have hne : items ≠ [] := fun hnil => by simpa using h.eq_nil_iff.2 hnil
      rw [getLast?_cons_of_ne_nil hne] at hlast
      exact getLast?_cells_cons (ih hlast ⟨by simp, hesc.2⟩) _
  | @plain c rest items hc h ih =>
    rcases rest with _ | ⟨d, _ | ⟨d', rest⟩⟩
    · simp [EscapeBeforeLast] at hesc
    · simp [EscapeBeforeLast, hc] at hesc
    · have hne : items ≠ [] := fun hnil => by simpa using h.eq_nil_iff.2 hnil
      rw [getLast?_cons_of_ne_nil hne] at hlast
      exact getLast?_cells_cons (ih hlast ⟨by simp, hesc.2⟩) _

lemma matchesPattern_cells (items : List (Item PatternChar)) :
    matchesPattern fits items ((cells items).map (·.char)) := by
  induction items with
  | nil => rfl
  | cons i items ih =>
    cases i with
    | cell k => simpa [cells, fits] using ih
    | many => exact matchesPattern_many.2 ⟨[], _, rfl, ih⟩

lemma last_partsOf_eq_nil_iff (hlast : items.getLast? = some .many)
    (hesc : EscapeBeforeLast e pattern) :
    (partsOf e pattern items).last = [] ↔ ∀ p ∈ (segments items).2, p = [] := by
  obtain ⟨ps, q, hsegs⟩ := (eq_nil_or_concat' (segments items).2).resolve_left fun hnil =>
    segments_snd_eq_nil.1 hnil (mem_of_getLast? hlast)
  obtain rfl := (last_segment_eq_nil hsegs).2 hlast
  have hfilter : (∀ p ∈ ps ++ [[]], p = []) ↔ ps.filter (· ≠ []) = [] := by
    simp [filter_eq_nil_iff, or_imp]
  simp only [partsOf, hsegs, getLast?_concat, dropLast_concat, hesc, and_self, if_true]
  rw [hfilter]
  rcases eq_nil_or_concat' (ps.filter (· ≠ [])) with hnil | ⟨rs, r, hr⟩
  · rw [hnil, getLastD_nil]
    exact iff_of_true rfl rfl
  · have hmem : r ∈ ps.filter (· ≠ []) := hr ▸ mem_append_right _ (mem_singleton_self r)
    rw [hr, getLastD_concat]
    exact iff_of_false (of_decide_eq_true (mem_filter.1 hmem).2) (by simp)

/-- The parts of a pattern with a wildcard for any sequence have its language if and only if it does
not end in `%` after an escaped escape character with a segment between two wildcards. -/
theorem accepts_preprocessLike_iff (hparse : parse e pattern = some items) (hmany : .many ∈ items)
    (hasSingleWildcard : Bool) :
    (∀ string, matchesPattern fits items string ↔
        (preprocessLike pattern e hasSingleWildcard).parts.Accepts string) ↔
      ¬ (items.getLast? = some .many ∧ EscapeBeforeLast e pattern ∧
        ∃ p ∈ (segments items).2, p ≠ []) := by
  have h := Parses.of_parse hparse
  have hparts : (preprocessLike pattern e hasSingleWildcard).parts = partsOf e pattern items :=
    h.parts_eq
  simp only [hparts, longCorrect_iff_of_many hmany]
  constructor
  · rintro hall ⟨hlast, hesc, p, hp, hne⟩
    have hnil : (partsOf e pattern items).last ≠ [] := fun hnil =>
      hne ((last_partsOf_eq_nil_iff hlast hesc).1 hnil p hp)
    obtain ⟨q, hq⟩ : ∃ q, (partsOf e pattern items).last = q ++ [⟨e, false⟩] := by
      have hcells := h.getLast?_cells hlast hesc
      rw [← flatten_segments, ← h.flatten_parts, ← append_assoc,
        getLast?_append_of_ne_nil _ hnil] at hcells
      exact getLast?_eq_some_iff.1 hcells
    obtain ⟨xs, rfl⟩ := getLast?_eq_some_iff.1 hlast
    -- a string that ends with another character
    have hends := (hall ((cells xs).map (·.char) ++ [e + 1])).2 hlast hesc
      (matchesPattern_append.2 ⟨_, _, rfl, matchesPattern_cells xs, rfl⟩)
    rw [hq, endsWith_concat] at hends
    simp [fits] at hends
  · refine fun hnot string => ⟨fun hno => absurd hmany hno, fun hlast hesc _ => ?_⟩
    have hnil : (partsOf e pattern items).last = [] := by
      rw [last_partsOf_eq_nil_iff hlast hesc]
      by_contra hne
      exact hnot ⟨hlast, hesc, by simpa using hne⟩
    exact ⟨string, [], by simp, hnil ▸ .nil⟩

def bytes (s : String) : List UInt8 := s.toList.map fun c => c.toUInt8

theorem accepts_preprocessLike_hello :
    (preprocessLike (bytes "h%lo") '!'.toUInt8 true).parts.Accepts (bytes "hello") := by
  have hparse : parse '!'.toUInt8 (bytes "h%lo") =
      some [.cell ⟨104, false⟩, .many, .cell ⟨108, false⟩, .cell ⟨111, false⟩] := by decide
  exact ((accepts_preprocessLike_iff hparse (by simp) true).2 (by decide) _).1 (by decide)

/-- The last `%` of `%a!!%` is taken for an escaped one, so that the parts do not accept `a!b`. -/
theorem accepts_preprocessLike_escaped :
    (parse '!'.toUInt8 (bytes "%a!!%")).map (matchesPattern fits · (bytes "a!b")) = some true ∧
      ¬ (preprocessLike (bytes "%a!!%") '!'.toUInt8 true).parts.Accepts (bytes "a!b") :=
  ⟨by decide, fun h => absurd ((decomposes_iff (by decide)).1 h).2.1 (by decide)⟩

/-! ### One string -/

/-- Where the kernel gives the result for a pattern: on long strings, if the parts have the language
of the pattern; on shorter ones, which do not match, if it rejects them. -/
def Correct (e : UInt8) (pattern : List UInt8) (items : List (Item PatternChar))
    (input : StringsColumn) (s : StringView) : Prop :=
  let p := (partsOf e pattern items).first
  let q := (partsOf e pattern items).last
  if p.length + q.length ≤ s.sizeBytes then LongCorrect e pattern items (input.string s)
  else
    (p.length ≤ s.sizeBytes ∧ ¬ Fits fits p ((input.string s).take p.length)) ∨
    (s.sizeBytes < p.length ∧ q ≠ [] ∧ q.length ≤ s.offset + s.sizeBytes ∧ ¬ Fits fits q
        ((input.chars.drop (s.offset + s.sizeBytes - q.length)).take q.length))

/-- Strings and patterns of this character set only. -/
def IsAscii (bytes : List UInt8) : Prop := ∀ c ∈ bytes, c < 128

instance (bytes : List UInt8) : Decidable (IsAscii bytes) :=
  inferInstanceAs (Decidable (∀ c ∈ bytes, _))

/-- The width of the masks for parts of at most 64 characters. -/
def maskWidth (middle : List SubPattern) : Nat :=
  if ∀ m ∈ middle, m.length ≤ 8 then 8 else if ∀ m ∈ middle, m.length ≤ 16 then 16
  else if ∀ m ∈ middle, m.length ≤ 32 then 32 else 64

namespace Parts

variable (parts : Parts)

def FitsShared (device : Device) : Prop :=
  smemSize (maskWidth parts.middle) parts.middle.length ≤ device.maxSharedMemory

instance (device : Device) : Decidable (parts.FitsShared device) :=
  inferInstanceAs (Decidable (_ ≤ _))

/-- The kernel for the parts of a pattern, with masks of their width. -/
def kernel (chars : List UInt8) : StringView → Option Bool :=
  likeFnShiftAndKernel chars parts.first parts.last
    (generateShiftAndMaskTables (maskWidth parts.middle) .ascii parts.middle)
    (totalLength parts.middle)

end Parts

variable {input : StringsColumn}

section
variable (h : Parses e pattern items)
include h

lemma Parses.searchable (hshort : ∀ m ∈ (partsOf e pattern items).middle, m.length ≤ 64) :
    ∀ m ∈ (partsOf e pattern items).middle,
      Searchable (maskWidth (partsOf e pattern items).middle) m := by
  refine fun m hm => ⟨h.middle_ne_nil hm, ?_⟩
  rw [maskWidth]
  split_ifs with h8 h16 h32
  exacts [h8 m hm, h16 m hm, h32 m hm, hshort m hm]

lemma Parses.view_parts (hascii : IsAscii pattern) :
    view (partsOf e pattern items).first = (partsOf e pattern items).first ∧
      view (partsOf e pattern items).last = (partsOf e pattern items).last := by
  have hchar : ∀ k ∈ (segments items).1 ++ (segments items).2.flatten, k.char < 128 :=
    fun k hk => hascii _ (h.char_mem (cell_mem_of_segments hk))
  rw [← h.flatten_parts] at hchar
  exact ⟨view_of_ascii fun k hk => hchar k (by simp [hk]),
    view_of_ascii fun k hk => hchar k (by simp [hk])⟩

lemma Parses.kernel_eq_iff (hascii : IsAscii pattern) (hlen : pattern.length < 2 ^ 31)
    (hshort : ∀ m ∈ (partsOf e pattern items).middle, m.length ≤ 64)
    {s : StringView} (hs : some s ∈ input.rows) : (partsOf e pattern items).kernel input.chars s =
      some (matchesPattern fits items (input.string s)) ↔ Correct e pattern items input s := by
  obtain ⟨hp, hq⟩ := h.view_parts hascii
  have hps := h.searchable hshort
  have hparts := h.length_parts_le.trans_lt hlen
  simp only [Correct, Parts.kernel]
  split_ifs with hle
  · obtain ⟨result, hres, hdec⟩ := kernel_eq_of_le
      (q := (partsOf e pattern items).last) hs hps (by rwa [hp, hq])
    rw [hp, hq] at hdec
    have hlong : (matchesPattern fits items (input.string s) ↔ result = true) ↔
        LongCorrect e pattern items (input.string s) := by
      rw [hdec]
      by_cases hmany : .many ∈ items
      · exact longCorrect_iff_of_many hmany _
      · exact h.longCorrect_iff_of_no_many hmany _
    rw [← hlong]
    refine (congrArg (· = some _) hres).to_iff.trans ?_
    rw [Option.some.injEq, ← Bool.eq_iff_iff, eq_comm]
  · have hshort : ¬ matchesPattern fits items (input.string s) :=
      h.not_matches_of_lt (by rw [length_string hs]; omega)
    rw [(Bool.not_eq_true _).mp hshort]
    have hlt := kernel_of_lt
      (q := (partsOf e pattern items).last) hs hps (by rwa [hp, hq]) (by rw [hp, hq]; omega)
    rwa [hp, hq] at hlt

end

/-! ### Columns -/

/-- `cudf::strings::like` is LIKE. -/
def Device.CudfLikeIsSql (device : Device) : Prop :=
  ∀ (input : StringsColumn) (pattern : List UInt8) (e : UInt8) (items : List (Item PatternChar)),
    IsAscii input.chars → IsAscii pattern → parse e pattern = some items →
      device.cudfLike input pattern [e] = input.rows.map (ofThread fun s =>
        some (matchesPattern fits items (input.string s)))

lemma maxMidPatternLen_le_iff {n : Nat} : (preprocessLike pattern e true).maxMidPatternLen ≤ n ↔
      ∀ m ∈ (preprocessLike pattern e true).parts.middle, m.length ≤ n := by
  have hfold : ∀ (ms : List SubPattern) (k : Nat),
      ms.foldl (fun n p => max n p.length) k ≤ n ↔ k ≤ n ∧ ∀ m ∈ ms, m.length ≤ n := by
    intro ms
    induction ms with
    | nil => simp
    | cons m ms ih => simp [ih, and_assoc]
  exact (hfold (preprocessLike pattern e true).middlePatterns 0).trans (and_iff_right n.zero_le)

lemma Parses.like_eq (h : Parses e pattern items) (device : Device) (hrows : input.rows ≠ [])
    {escape : List UInt8} (hesc : escape.length ≤ 1) (he : escape.headD 0 = e) :
    like device input pattern (some escape) =
      .ok (if ∀ m ∈ (partsOf e pattern items).middle, m.length ≤ 64 then
        input.rows.map (ofThread (if (partsOf e pattern items).FitsShared device then
          (partsOf e pattern items).kernel input.chars else fun _ => none))
      else device.cudfLike input pattern escape) := by
  subst he
  have hascii : ¬ (EncodingTag.ascii = .utf8Bytewise ∧
      (preprocessLike pattern (escape.headD 0) true).hasSingleWildcard = true) := by simp
  have htrue : decide (EncodingTag.ascii ≠ .utf8Bytewise) = true := rfl
  have hvalid : ¬ (!isValidPatternEscape pattern (escape.headD 0)) = true := by
    rw [h.isValid]
    decide
  have hrun : input.rows.map
        (ofThread (if (partsOf (escape.headD 0) pattern items).FitsShared device
          then (partsOf (escape.headD 0) pattern items).kernel input.chars else fun _ => none)) =
      runStringMatch device (maskWidth (partsOf (escape.headD 0) pattern items).middle) .ascii input
        (preprocessLike pattern (escape.headD 0) true) := by
    rw [← h.parts_eq]
    rfl
  rw [hrun]
  simp only [like, likeImpl, if_neg hrows, htrue, if_neg hascii, maskWidth, ← h.parts_eq,
    ← maxMidPatternLen_le_iff]
  split_ifs <;> first | rfl | omega

lemma getElem?_map_ofThread {thread : StringView → Option Bool} {i : Nat}
    {s : StringView} (hi : input.rows[i]? = some (some s)) (result : Bool) :
    (input.rows.map (ofThread thread))[i]? = some (value result) ↔ thread s = some result := by
  rw [List.getElem?_map, hi, Option.map_some, ofThread]
  cases thread s <;> simp

/-- **LIKE.** The result for a string of the column is whether it matches the pattern, exactly if a
middle part is too long for the masks, or else if the mask tables fit into shared memory and the
kernel is correct on the string. -/
theorem like_eq_matchesPattern_iff {device : Device} (hcudf : device.CudfLikeIsSql)
    {input : StringsColumn} (hinput : IsAscii input.chars) (hascii : IsAscii pattern)
    (hlength : pattern.length < 2 ^ 31) (hparse : parse e pattern = some items) :
    ∃ cells : List Cell, like device input pattern (some [e]) = .ok cells ∧
      cells.length = input.rows.length ∧ ∀ (i : Nat) s, input.rows[i]? = some (some s) →
        (cells[i]? = some (value (matchesPattern fits items (input.string s))) ↔
          (∃ m ∈ (partsOf e pattern items).middle, 64 < m.length) ∨
          smemSize (maskWidth (partsOf e pattern items).middle)
            (partsOf e pattern items).middle.length ≤ device.maxSharedMemory ∧
          Correct e pattern items input s) := by
  have h := Parses.of_parse hparse
  by_cases hrows : input.rows = []
  · refine ⟨[], ?_, by simp [hrows], by simp [hrows]⟩
    rw [like, likeImpl, if_neg (by simp), if_pos hrows]
  · refine ⟨_, h.like_eq device hrows (by simp) rfl, ?_, fun i s hi => ?_⟩
    · split
      · rw [length_map]
      · rw [hcudf input pattern e items hinput hascii hparse, length_map]
    · by_cases hlong : ∀ m ∈ (partsOf e pattern items).middle, m.length ≤ 64
      · have hnot : ¬ ∃ m ∈ (partsOf e pattern items).middle, 64 < m.length := by simpa using hlong
        rw [if_pos hlong, getElem?_map_ofThread hi, or_iff_right hnot]
        split_ifs with hfits
        · exact (h.kernel_eq_iff hascii hlength hlong (mem_of_getElem? hi)).trans
            (and_iff_right hfits).symm
        · exact iff_of_false (by simp) fun hcorrect => hfits hcorrect.1
      · rw [if_neg hlong, hcudf input pattern e items hinput hascii hparse,
          getElem?_map_ofThread hi]
        simpa using .inl (by simpa using hlong)

/-- A device whose library function is LIKE. -/
def Device.sql (maxSharedMemory : Nat) : Device where
  maxSharedMemory := maxSharedMemory
  cudfLike input pattern escapeCharacter :=
    input.rows.map <| ofThread fun s =>
      (parse (escapeCharacter.headD 0) pattern).map fun items =>
        matchesPattern fits items (input.string s)

lemma Device.cudfLikeIsSql_sql (maxSharedMemory : Nat) : (sql maxSharedMemory).CudfLikeIsSql := by
  intro input pattern e items _ _ hpar
  simp [sql, hpar]

def StringsColumn.singleton (chars : List UInt8) (h : chars.length < 2 ^ 31) : StringsColumn where
  chars := chars
  rows := [some ⟨0, chars.length⟩]
  chars_lt := by omega
  size_lt := by simpa using h
  offset_add_size_le := by simp

/-- The column with the string `hello`. -/
def hello : StringsColumn := .singleton (bytes "hello") (by decide)

/-- `'hello' LIKE 'h%lo'`. -/
theorem like_eq_matchesPattern_hello :
    ∃ cells : List Cell, like (.sql 49152) hello (bytes "h%lo") (some ['!'.toUInt8]) = .ok cells ∧
      cells[0]? = some (value true) := by
  have hparse : parse '!'.toUInt8 (bytes "h%lo") =
      some [.cell ⟨104, false⟩, .many, .cell ⟨108, false⟩, .cell ⟨111, false⟩] := by decide
  obtain ⟨cells, hcells, -, hcorrect⟩ := like_eq_matchesPattern_iff
    (Device.cudfLikeIsSql_sql 49152) (show IsAscii hello.chars by decide +kernel)
    (show IsAscii (bytes "h%lo") by decide +kernel) (by decide) hparse
  refine ⟨cells, hcells, (hcorrect 0 ⟨0, 5⟩ rfl).2 (.inr ⟨by decide, ?_⟩)⟩
  exact ⟨fun hmany => absurd (by simp) hmany, fun hlast => absurd hlast (by decide)⟩

/-- A pattern without a wildcard is taken for a prefix, and a string shorter than the prefix is not
compared with it: `'hello' LIKE 'hello world'` is TRUE. -/
theorem like_hello_world :
    like (.sql 49152) hello (bytes "hello world") (some ['!'.toUInt8]) = .ok [.value true] ∧
      (parse '!'.toUInt8 (bytes "hello world")).map (matchesPattern fits · (bytes "hello")) =
        some false :=
  ⟨by decide +kernel, by decide⟩

/-! ### Dangling escapes -/

/-- The result of LIKE for a pattern that no string matches. -/
def falseCells (input : StringsColumn) : List Cell := input.rows.map (ofThread fun _ => some false)

/-- For a pattern with a dangling escape nothing is written, which is right if and only if all
strings are NULL. -/
theorem like_dangling_iff (device : Device)
    (likeValid : StringsColumn → List UInt8 → List UInt8 → Except String (List Cell))
    (input : StringsColumn) (he : e ≠ 0) (hparse : parse e pattern = none) :
    (∀ result ∈ [like device input pattern (some [e]),
      likeUtf8Bytewise device input pattern (some [e]),
        likeUtf8 likeValid input pattern (some [e])], result = .ok (falseCells input)) ↔
      ∀ row ∈ input.rows, row = none := by
  have hvalid := isValidEscape_eq_false he hparse
  have hcells : input.rows.map (ofThread fun _ => none) = falseCells input ↔
      ∀ row ∈ input.rows, row = none := by
    rw [falseCells, map_inj_left]
    refine forall₂_congr fun row _ => ?_
    cases row <;> simp [ofThread]
  by_cases hrows : input.rows = []
  · simp [like, likeUtf8Bytewise, likeImpl, likeUtf8, hrows, falseCells]
  · simp [like, likeUtf8Bytewise, likeImpl, likeUtf8, hrows, hvalid, hcells]

def nullString : StringsColumn := ⟨[], [none], by decide, by simp, by simp⟩

theorem like_dangling_null :
    like (.sql 49152) nullString (bytes "a!") (some ['!'.toUInt8]) = .ok (falseCells nullString) :=
  (like_dangling_iff (.sql 49152) (fun _ _ _ => .ok []) nullString (by decide)
    (show parse '!'.toUInt8 (bytes "a!") = none by decide)).2 (by simp [nullString]) _ mem_cons_self

/-- The result for `'hello' LIKE 'a!' ESCAPE '!'` is what was in the memory before. -/
theorem like_dangling_hello : parse '!'.toUInt8 (bytes "a!") = none ∧
    like (.sql 49152) hello (bytes "a!") (some ['!'.toUInt8]) = .ok [unspecified] :=
  ⟨by decide, by decide +kernel⟩

end Gqe.Like
