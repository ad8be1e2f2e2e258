import Gqe.Like.Correctness
import Gqe.Like.Utf8Patterns

/-!
# LIKE on encoded strings

The automaton runs over the bytes of strings that are only promised to be valid UTF-8, and takes the
number of characters of a prefix or suffix for its number of bytes. Where this, and a last `%` after
an escaped escape character, changes the result.
-/

namespace Gqe.Like

open Wildcard Utf8 List StringsColumn Utf8Char Function Except

/-! ### Columns -/

/-- The strings of a column, in characters. -/
def StringsColumn.Encodes (input : StringsColumn) (strings : List (Option (List Char))) : Prop :=
  input.rows.map (·.map input.string) = strings.map (·.map encode)

/-- The result of LIKE for a column of strings. -/
def likeCells (items : List (Item Utf8Char)) (strings : List (Option (List Char))) : List Cell :=
  strings.map fun
    | none => .null
    | some s => .value (matchesPattern fits items s)

/-- An escape character of one byte, or none, where the code takes the null character for one. -/
def IsEscape (escape : List UInt8) (e : Char) (pattern : List Char) : Prop :=
  e.toNat < 0x80 ∧ (escape = [escapeByte e] ∨ escape = [] ∧ e = Char.ofNat 0 ∧ e ∉ pattern)

/-- `cudf::strings::like` is LIKE on characters. -/
def Device.CudfLikeIsUtf8 (device : Device) : Prop :=
  ∀ input strings escape e pattern items, StringsColumn.Encodes input strings →
    IsEscape escape e pattern → parseUtf8 e pattern = some items →
      device.cudfLike input (encode pattern) escape = likeCells items strings

/-- The parts that the encoded pattern is cut into. -/
abbrev utf8Parts (e : Char) (pattern : List Char) (items : List (Item Utf8Char)) : Parts :=
  partsOf (escapeByte e) (encode pattern) (itemsBytes items)

/-- What the kernel compares of the parts. -/
def Parts.view (parts : Parts) : Parts :=
  ⟨Like.view parts.first, parts.middle, Like.view parts.last⟩

section

variable {device : Device} {escape : List UInt8} {e : Char} {pattern : List Char}
  {items : List (Item Utf8Char)}

lemma IsEscape.length_le (h : IsEscape escape e pattern) : escape.length ≤ 1 := by
  rcases h.2 with rfl | ⟨rfl, -⟩ <;> simp

lemma IsEscape.headD_eq (h : IsEscape escape e pattern) : escape.headD 0 = escapeByte e := by
  rcases h.2 with rfl | ⟨rfl, rfl, -⟩ <;> rfl

variable {input : StringsColumn} {strings : List (Option (List Char))}

lemma getElem?_of_encodes
    (h : input.Encodes strings) {i : Nat} {r : Option StringView} (hi : input.rows[i]? = some r) :
    ∃ s, strings[i]? = some s ∧ r.map input.string = s.map encode := by
  have hget := congrArg (·[i]?) h
  simp only [getElem?_map, hi] at hget
  obtain ⟨s, hs, hmap⟩ := Option.map_eq_some_iff.1 hget.symm
  exact ⟨s, hs, hmap.symm⟩

lemma string_singleton (s : List UInt8) (h : s.length < 2 ^ 31) :
    (singleton s h).string ⟨0, s.length⟩ = s := by
  simp [string, StringsColumn.singleton]

lemma encodes_singleton {s : List Char} (h : (encode s).length < 2 ^ 31) :
    (singleton (encode s) h).Encodes [some s] :=
  congrArg (fun string => [some string]) (string_singleton _ h)

lemma likeCells_of_rows_eq_nil
    (h : input.Encodes strings) (hrows : input.rows = []) : likeCells items strings = [] := by
  rw [Encodes, hrows] at h
  rw [map_eq_nil_iff.1 h.symm]
  rfl

lemma like_of_rows_eq_nil {bytes : List UInt8} (hesc : escape.length ≤ 1)
    (hrows : input.rows = []) : like device input bytes (some escape) = .ok [] := by
  rw [like, likeImpl, if_neg (by omega), if_pos hrows]

/-- The results of the threads, if each is right. -/
lemma likeCells_of_kernel (h : input.Encodes strings) {thread : StringView → Option Bool}
    (hthread : ∀ s, some s ∈ input.rows → ∀ string, input.string s = encode string →
      thread s = some (matchesPattern fits items string)) :
    input.rows.map (Cell.ofThread thread) = likeCells items strings := by
  refine ext_getElem? fun i => ?_
  rw [getElem?_map, likeCells, getElem?_map]
  cases hi : input.rows[i]? with
  | none =>
    have hget := congrArg (·[i]?) h
    simp only [getElem?_map, hi] at hget
    rw [Option.map_eq_none_iff.1 hget.symm]
    rfl
  | some r =>
    obtain ⟨s, hs, hmap⟩ := getElem?_of_encodes h hi
    rw [hs, Option.map_some, Option.map_some]
    match r, s, hmap with
    | none, none, _ => rfl
    | some r, some s, hmap =>
      rw [Cell.ofThread, hthread r (mem_of_getElem? hi) s (Option.some.inj hmap)]

/-! ### One string -/

section Parses

variable {b : UInt8} {bytes : List UInt8} {items : List (Item PatternChar)}
  (h : Parses b bytes items)
  (hshort : ∀ m ∈ (partsOf b bytes items).middle, m.length ≤ 64)
include h hshort

variable {input : StringsColumn}

lemma Parses.like_eq_map (hesc : escape.length ≤ 1) (hb : escape.headD 0 = b)
    (hrows : input.rows ≠ []) :
    like device input bytes (some escape) = .ok (input.rows.map <| Cell.ofThread <|
      if (partsOf b bytes items).FitsShared device then (partsOf b bytes items).kernel input.chars
      else fun _ => none) := by
  rw [h.like_eq device hrows hesc hb, if_pos hshort]

lemma Parses.kernel_of_like_eq (hesc : escape.length ≤ 1) (hb : escape.headD 0 = b)
    {string : List UInt8} {hstr : string.length < 2 ^ 31} {result : Bool}
    (heq : like device (.singleton string hstr) bytes (some escape) = .ok [.value result]) :
    (partsOf b bytes items).FitsShared device ∧
      (partsOf b bytes items).kernel string ⟨0, string.length⟩ = some result := by
  rw [h.like_eq_map hshort hesc hb (cons_ne_nil _ _)] at heq
  have hcell := congrArg (·[0]?) (ok.inj heq)
  have hrow : (singleton string hstr).rows[0]? = some (some ⟨0, string.length⟩) := rfl
  have hthread := (getElem?_map_ofThread hrow result).1 hcell
  by_cases hfits : (partsOf b bytes items).FitsShared device
  · rw [if_pos hfits] at hthread
    exact ⟨hfits, hthread⟩
  · rw [if_neg hfits] at hthread
    cases hthread

lemma Parses.kernel_of_le {s : StringView} (hs : some s ∈ input.rows)
    (hle : (view (partsOf b bytes items).first).length +
        (view (partsOf b bytes items).last).length ≤
      s.sizeBytes) : ∃ result, (partsOf b bytes items).kernel input.chars s = some result ∧
      (result = true ↔ (partsOf b bytes items).view.Accepts (input.string s)) :=
  kernel_eq_of_le hs (h.searchable hshort) hle

end Parses

/-- The parts have the language of the pattern, unless its last `%` was taken for an escaped one. -/
lemma matches_iff_parts {b : UInt8} {bytes : List UInt8} {items : List (Item PatternChar)}
    (hmany : .many ∈ items)
    (hlast : items.getLast? = some .many → (partsOf b bytes items).last = [])
    (string : List UInt8) :
    matchesPattern PatternChar.fits items string ↔ (partsOf b bytes items).Accepts string := by
  rw [longCorrect_iff_of_many hmany]
  refine ⟨fun hnot => absurd hmany hnot, fun hend _ _ => ⟨string, [], by simp, ?_⟩⟩
  rw [hlast hend]
  exact .nil

end

/-! ### The two evaluations of LIKE -/

/-- `expression_evaluator::evaluate` for LIKE. -/
def evaluateLike (device : Device) (useLikeShiftAnd ignoreCase : Bool) (input : StringsColumn)
    (pattern escapeCharacter : List UInt8) : Except String (List Cell) :=
  if ignoreCase then .error "Evaluating ILIKE expression not implemented"
  else if useLikeShiftAnd then like device input pattern (some escapeCharacter)
  else .ok (device.cudfLike input pattern escapeCharacter)

variable {items : List (Item Utf8Char)}

lemma many_mem_itemsBytes : .many ∈ itemsBytes items ↔ .many ∈ items := by
  induction items with
  | nil => simp
  | cons i items ih => cases i <;> simp [ih]

lemma getLast?_itemsBytes :
    (itemsBytes items).getLast? = some .many ↔ items.getLast? = some .many := by
  rcases eq_nil_or_concat' items with rfl | ⟨p, i, rfl⟩
  · simp
  · rw [itemsBytes_append]
    cases i with
    | cell k =>
      have hne : k.bytes.map Item.cell ≠ [] := by
        obtain ⟨b, rest, hcode, -⟩ := synchronizes_code.eq_cons k.char
        cases hk : k.isWildcard <;> simp [hk, hcode]
      rw [itemsBytes, itemsBytes, append_nil, getLast?_append_of_ne_nil _ hne]
      simp
    | many => simp

section

variable {device : Device} {escape : List UInt8} {e : Char} {pattern : List Char}
  {items : List (Item Utf8Char)}

lemma first_utf8Parts (hmany : .many ∈ items) :
    (utf8Parts e pattern items).first = segmentBytes (segments items).1 := by
  have hne : (segments (itemsBytes items)).2 ≠ [] := fun hnil =>
    segments_snd_eq_nil.1 hnil (many_mem_itemsBytes.2 hmany)
  obtain ⟨ps, q, hq⟩ := (eq_nil_or_concat' _).resolve_left hne
  rw [utf8Parts, partsOf, hq, getLast?_concat]
  dsimp only
  rw [segments_itemsBytes]
  split_ifs <;> rfl

lemma length_shortest_le (h : Parses (escapeByte e) (encode pattern) (itemsBytes items)) :
    (encode (shortest items)).length ≤ (encode pattern).length := by
  have hsegs := length_segments_le (itemsBytes items)
  rw [(length_shortest items).2] at hsegs
  exact hsegs.trans h.length_le

lemma isFirst_iff (b : UInt8) : b &&& 0xC0 ≠ 0x80 ↔ IsFirst b := by
  have hall : ∀ n < 256, UInt8.ofNat n &&& 0xC0 ≠ 0x80 ↔ ¬ (0x80 ≤ n ∧ n < 0xC0) := by
    decide +kernel
  have := hall b.toNat b.toNat_lt
  rwa [UInt8.ofNat_toNat] at this

lemma view_bytes_ne_nil {q : List Utf8Char} (h : q ≠ []) : view (segmentBytes q) ≠ [] := by
  cases q with
  | nil => exact absurd rfl h
  | cons k q =>
    obtain ⟨c, hc, hfst⟩ : ∃ c ∈ k.bytes, IsFirst c.char := by
      obtain ⟨b, rest, hcode, hb, -⟩ := synchronizes_code.eq_cons k.char
      cases hk : k.isWildcard
      · exact ⟨⟨b, false⟩, by simp [hk, hcode], hb⟩
      · exact ⟨⟨singleWildcard, true⟩, by simp [hk], (isFirst_iff _).1 (by decide)⟩
    have hpos : 0 < stringViewLength (segmentBytes (k :: q)) :=
      countP_pos_iff.2 ⟨c, mem_append_left _ hc, by simpa using (isFirst_iff _).2 hfst⟩
    intro hnil
    rw [stringViewLength_eq, hnil] at hpos
    exact absurd hpos (by simp)

lemma last_utf8Parts (hmany : .many ∈ items) : (utf8Parts e pattern items).last = [] ∨
    ∃ q ∈ (segments items).2, (utf8Parts e pattern items).last = segmentBytes q := by
  have hne : (segments (itemsBytes items)).2 ≠ [] := fun hnil =>
    segments_snd_eq_nil.1 hnil (many_mem_itemsBytes.2 hmany)
  suffices hmem : (utf8Parts e pattern items).last = [] ∨
      (utf8Parts e pattern items).last ∈ (segments (itemsBytes items)).2 by
    rw [segments_itemsBytes] at hmem
    exact hmem.imp_right fun hmem => by simpa [eq_comm] using mem_map.1 hmem
  obtain ⟨ps, q, hq⟩ := (eq_nil_or_concat' _).resolve_left hne
  rw [utf8Parts, partsOf, hq, getLast?_concat]
  dsimp only
  rw [dropLast_concat]
  split_ifs
  · rcases eq_nil_or_concat' (ps.filter (· ≠ [])) with hnil | ⟨rs, r, hr⟩
    · rw [hnil]
      exact .inl rfl
    · have hmem : r ∈ ps.filter (· ≠ []) := by rw [hr]; simp
      rw [hr, getLastD_concat]
      exact .inr (mem_append_left _ (mem_of_mem_filter hmem))
  · simp

section

variable (h : Parses (escapeByte e) (encode pattern) (itemsBytes items))
include h

lemma length_parts :
    (utf8Parts e pattern items).first.length + (utf8Parts e pattern items).last.length +
        totalLength (utf8Parts e pattern items).middle = (encode (shortest items)).length := by
  have hflat := congrArg length h.flatten_parts
  simp only [length_append] at hflat
  rw [(length_shortest items).2, length_flatten] at hflat
  simp only [utf8Parts, totalLength]
  omega

lemma last_utf8Parts_eq_nil (hshort : ∀ m ∈ (utf8Parts e pattern items).middle, m.length ≤ 64)
    (hmany : .many ∈ items)
    (hfst : (utf8Parts e pattern items).first = []) (hlen : (encode pattern).length < 2 ^ 31)
    (hkernel : (utf8Parts e pattern items).kernel [] ⟨0, 0⟩ = some (matchesPattern fits items [])) :
    (utf8Parts e pattern items).last = [] := by
  by_contra hne
  obtain ⟨q, -, hq⟩ := (last_utf8Parts hmany).resolve_left hne
  have hview : view (utf8Parts e pattern items).last ≠ [] := by
    rw [hq] at hne ⊢
    exact view_bytes_ne_nil fun hnil => hne (by rw [hnil]; rfl)
  have hparts := length_parts h
  have hshortest := length_shortest_le h
  have hfalse : matchesPattern fits items [] = false := by
    by_contra hmatch
    have hle := length_le_of_matches ((Bool.not_eq_false _).mp hmatch)
    rw [(length_shortest items).1] at hle
    rw [length_eq_zero_iff.1 (Nat.le_zero.1 hle)] at hparts
    have hzero : (encode []).length = 0 := rfl
    exact hne (length_eq_zero_iff.1 (by omega))
  have hmem : some ⟨0, 0⟩ ∈ (singleton [] (by decide)).rows := mem_singleton.2 rfl
  have hfirstView := length_view_le (utf8Parts e pattern items).first
  have hlastView := length_view_le (utf8Parts e pattern items).last
  have hpos := length_pos_of_ne_nil hview
  have hiff := kernel_of_lt (p := (utf8Parts e pattern items).first)
    (q := (utf8Parts e pattern items).last) hmem
    (show ∀ m ∈ (utf8Parts e pattern items).middle, _ from h.searchable hshort) (by omega)
      (show 0 < _ by omega)
  rw [Parts.kernel] at hkernel
  rw [hfst] at hiff hkernel
  simpa [view] using hiff.1 (hkernel.trans (congrArg some hfalse))

end

/-- Patterns with a long part are left to the library function. -/
lemma like_of_long (hcudf : device.CudfLikeIsUtf8) (hesc : IsEscape escape e pattern)
    (hpar : parseUtf8 e pattern = some items)
    (hlong : ∃ m ∈ (utf8Parts e pattern items).middle, 64 < m.length)
    {input : StringsColumn} {strings : List (Option (List Char))} (hin : input.Encodes strings) :
    like device input (encode pattern) (some escape) = .ok (likeCells items strings) := by
  have h := Parses.of_parseUtf8 hesc.1 hpar
  by_cases hrows : input.rows = []
  · rw [likeCells_of_rows_eq_nil hin hrows]
    exact like_of_rows_eq_nil hesc.length_le hrows
  · rw [h.like_eq device hrows hesc.length_le hesc.headD_eq, if_neg (by simpa using hlong),
      hcudf _ _ _ _ _ _ hin hesc hpar]

/-- Both evaluations agree on all columns of valid strings, for a pattern that starts and ends
with a wildcard for any sequence, if and only if it is left to the library function, or the mask
tables fit into shared memory, no part is taken for a suffix, and the wildcards for a character
are spaced. -/
theorem evaluateLike_eq_iff (hcudf : device.CudfLikeIsUtf8) (hescape : IsEscape escape e pattern)
    (hparse : parseUtf8 e pattern = some items) (hfirst : items.head? = some .many)
    (hlast : items.getLast? = some .many) (hlength : (encode pattern).length < 2 ^ 30) :
    (∀ input strings, StringsColumn.Encodes input strings →
      evaluateLike device true false input (encode pattern) escape =
        evaluateLike device false false input (encode pattern) escape) ↔
    (∃ m ∈ (utf8Parts e pattern items).middle, 64 < m.length) ∨
      (utf8Parts e pattern items).FitsShared device ∧ (utf8Parts e pattern items).last = [] ∧
        spaced .many items := by
  have h := Parses.of_parseUtf8 hescape.1 hparse
  have hmany : .many ∈ itemsBytes items := many_mem_itemsBytes.2 (mem_of_head? hfirst)
  have hfirstPart : (utf8Parts e pattern items).first = [] := by
    obtain ⟨p, rfl⟩ := head?_eq_some_iff.1 hfirst
    rw [first_utf8Parts (by simp)]
    rfl
  have hlanguage : (utf8Parts e pattern items).last = [] → ∀ string,
      matchesPattern PatternChar.fits (itemsBytes items) string ↔
        (utf8Parts e pattern items).view.Accepts string := by
    intro hempty string
    rw [matches_iff_parts hmany fun _ => hempty, Parts.Accepts, Parts.Accepts, Parts.view,
      hfirstPart, hempty]
    rfl
  by_cases hshort : ∀ m ∈ (utf8Parts e pattern items).middle, m.length ≤ 64
  · have hlong : ¬ ∃ m ∈ (utf8Parts e pattern items).middle, 64 < m.length := by simpa using hshort
    rw [or_iff_right hlong]
    constructor
    · intro hall
      have hshortest := length_shortest_le h
      have hone : ∀ s, (encode s).length < 2 ^ 31 → _ := fun s hs => h.kernel_of_like_eq hshort
        hescape.length_le hescape.headD_eq ((hall _ _ (encodes_singleton hs)).trans
          (congrArg ok (hcudf _ _ _ _ _ _ (encodes_singleton hs) hescape hparse)))
      have hempty := last_utf8Parts_eq_nil h hshort (mem_of_head? hfirst) hfirstPart (by omega)
        (hone [] (by simp [encode])).2
      refine ⟨(hone (shortest items) (by omega)).1, hempty, ?_⟩
      by_contra hspaced
      have hends : Gap.many.Ends [] := trivial
      obtain ⟨s, hs, hne⟩ := (unspaced_of_spaced_eq_false hends ((Bool.not_eq_true _).mp hspaced)
        (by simpa using hlast)).exists_ne
      rw [nil_append] at hs hne
      have hstring : (encode s).length < 2 ^ 31 := by omega
      have hmem : some ⟨0, (encode s).length⟩ ∈ (singleton (encode s) hstring).rows :=
        mem_singleton.2 rfl
      obtain ⟨result, hresult, hiff⟩ := h.kernel_of_le hshort hmem (by
        simp [hfirstPart, hempty, view])
      rw [string_singleton] at hiff
      refine hne ((hlanguage hempty _).trans (hiff.symm.trans ?_))
      rw [Option.some.inj (hresult.symm.trans (hone s hstring).2)]
    · rintro ⟨hfits, hempty, hspaced⟩ input strings hinput
      refine Eq.trans ?_ (congrArg ok (hcudf _ _ _ _ _ _ hinput hescape hparse)).symm
      have hsame : SameMatches items := by
        obtain ⟨p, rfl⟩ := head?_eq_some_iff.1 hfirst
        exact sameMatches_of_spaced (g := .many) hspaced
      by_cases hrows : input.rows = []
      · rw [likeCells_of_rows_eq_nil hinput hrows]
        exact like_of_rows_eq_nil hescape.length_le hrows
      · refine (h.like_eq_map hshort hescape.length_le hescape.headD_eq hrows).trans
          (congrArg ok (likeCells_of_kernel hinput fun s hs string hstring => ?_))
        obtain ⟨result, hresult, hiff⟩ := h.kernel_of_le hshort hs (by
          simp [hfirstPart, hempty, view])
        rw [if_pos hfits, hresult, Option.some.injEq, Bool.eq_iff_iff, hiff, hstring, ← hsame]
        exact (hlanguage hempty _).symm
  · have hlong : ∃ m ∈ (utf8Parts e pattern items).middle, 64 < m.length := by simpa using hshort
    refine iff_of_true (fun input strings hinput => ?_) (.inl hlong)
    exact (like_of_long hcudf hescape hparse hlong hinput).trans
      (congrArg ok (hcudf _ _ _ _ _ _ hinput hescape hparse).symm)

end

/-- A device whose library function is LIKE on characters. -/
noncomputable def Device.utf8 (maxSharedMemory : Nat) : Device where
  maxSharedMemory := maxSharedMemory
  cudfLike input pattern escapeCharacter :=
    (parseUtf8 (Char.ofNat (escapeCharacter.headD 0).toNat) (invFun encode pattern)).elim []
      (likeCells · (input.rows.map (·.map fun s => invFun encode (input.string s))))

lemma Device.cudfLikeIsUtf8_utf8 (maxSharedMemory : Nat) :
    (utf8 maxSharedMemory).CudfLikeIsUtf8 := by
  intro input strings escape e pattern items hin hesc hpar
  have hdecode := leftInverse_invFun encode_injective
  have he : Char.ofNat (escape.headD 0).toNat = e := by
    rw [hesc.headD_eq, toNat_escapeByte hesc.1, Char.ofNat_toNat]
  have hstrs : input.rows.map (·.map fun s => invFun encode (input.string s)) = strings := by
    have hmap := congrArg (map (Option.map (invFun encode))) hin
    rw [map_map, map_map] at hmap
    refine (map_congr_left fun s _ => ?_).trans (hmap.trans
      ((map_congr_left fun s _ => ?_).trans (map_id strings)))
    · cases s <;> rfl
    · cases s with
      | none => rfl
      | some s => exact congrArg some (hdecode s)
  simp only [utf8, he, hdecode pattern, hpar, hstrs, Option.elim_some]

/-- The column with the string `aéb`. -/
def accented : StringsColumn := .singleton (encode ['a', 'é', 'b']) (by decide)

/-- `'aéb' LIKE '%é_%'`. -/
theorem evaluateLike_eq_accented :
    evaluateLike (.utf8 49152) true false accented (encode ['%', 'é', '_', '%']) [0x21] =
      evaluateLike (.utf8 49152) false false accented (encode ['%', 'é', '_', '%']) [0x21] :=
  (evaluateLike_eq_iff (Device.cudfLikeIsUtf8_utf8 49152)
    (show IsEscape [0x21] '!' ['%', 'é', '_', '%'] from ⟨by decide, .inl rfl⟩)
      rfl rfl rfl (by decide)).2
      (.inr ⟨by decide +kernel, by decide +kernel, by decide⟩) accented _ (encodes_singleton _)

/-- `é` has two bytes: `'aéb' LIKE '%a_b%'` is FALSE, and TRUE without the fast path. -/
theorem evaluateLike_ne_accented :
    evaluateLike (.utf8 49152) true false accented (encode ['%', 'a', '_', 'b', '%']) [0x21] =
      .ok [.value false] ∧
    evaluateLike (.utf8 49152) false false accented (encode ['%', 'a', '_', 'b', '%']) [0x21] =
      .ok [.value true] := by
  refine ⟨by decide +kernel, congrArg ok ?_⟩
  rw [Device.cudfLikeIsUtf8_utf8 49152 accented _ [0x21] '!' _ _ (encodes_singleton _)
    ⟨by decide, .inl rfl⟩ rfl]
  decide

end Gqe.Like
