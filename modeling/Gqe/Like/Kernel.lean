import Gqe.Like.Search

/-!
# The kernel on one string

On strings that are at least as long as prefix and suffix together, the kernel decides the language
of the prefix, the middle parts and the suffix, with any sequences between them. Shorter strings are
compared with the prefix or the suffix only if their lengths, which wrap around, allow it.
-/

namespace Gqe.Like

open Wildcard List PatternChar StringsColumn Option

/-! ### Exact matches -/

section
variable {chars : List UInt8}

variable {p : SubPattern}

lemma checkExact_natCast {o : Nat} (h : o + p.length ≤ chars.length) :
    ∃ result, checkExactPatternMatch chars o p = some result ∧
      (result = true ↔ Fits fits p ((chars.drop o).take p.length)) := by
  induction p generalizing o with
  | nil => exact ⟨true, rfl, by simp⟩
  | cons k p ih =>
    rw [length_cons] at h
    have ho : o < chars.length := by omega
    have hread : readChar chars o = some chars[o] := by simp [readChar]
    obtain ⟨result, hres, hfits⟩ := ih (o := o + 1) (by omega)
    have hcond : (!k.isWildcard) = true ∧ chars[o] ≠ k.char ↔ ¬ k.fits chars[o] := by
      simp [fits]
    rw [checkExactPatternMatch, hread, drop_eq_getElem_cons ho, length_cons,
      take_succ_cons, fits_cons_cons, ← hfits, bind_eq_bind, bind_some]
    by_cases hk : k.fits chars[o]
    · refine ⟨result, ?_, by simp [hk]⟩
      rw [if_neg fun h => hcond.1 h hk, ← hres, Int.natCast_succ]
    · exact ⟨false, if_pos (hcond.2 hk), by simp [hk]⟩

lemma checkExact_of_neg (hp : p ≠ []) {ptr : Int} (h : ptr < 0) :
    checkExactPatternMatch chars ptr p = none := by
  cases p with
  | nil => exact absurd rfl hp
  | cons k p => simp [checkExactPatternMatch, readChar, Int.not_le.2 h]

end

/-! ### The kernel -/

/-- What the kernel compares of a prefix or suffix: as many bytes as it has characters. -/
def view (p : SubPattern) : SubPattern := p.take (stringViewLength p)

lemma stringViewLength_eq (p : SubPattern) : stringViewLength p = (view p).length := by
  have hle : stringViewLength p ≤ p.length := countP_le_length
  rw [view, length_take, Nat.min_eq_left hle]

lemma length_view_le (p : SubPattern) : (view p).length ≤ p.length := length_take_le' _ _

lemma take_view (p : SubPattern) : p.take (view p).length = view p := by
  rw [← stringViewLength_eq, view]

lemma view_of_ascii {p : SubPattern} (h : ∀ k ∈ p, k.char < 128) : view p = p := by
  refine take_of_length_le (countP_eq_length.2 fun k hk => ?_).ge
  have hlt : k.char.toNat < 128 := UInt8.lt_iff_toNat_lt.1 (h k hk)
  have hand : k.char &&& 0xC0 ≠ 0x80 := by
    intro heq
    have hnat : k.char.toNat &&& 192 = 128 := congrArg UInt8.toNat heq
    have := Nat.and_le_left (n := k.char.toNat) (m := 192)
    omega
  simpa using hand

section
variable {w : Nat} {input : StringsColumn} {p q : SubPattern} {ps : List SubPattern}
  {s : StringView}

lemma length_string (hs : some s ∈ input.rows) : (input.string s).length = s.sizeBytes := by
  have := input.offset_add_size_le s hs
  rw [string, length_take, length_drop]
  omega

lemma subSize_of_le {m n : Nat} (h : n ≤ m) (hlt : m < 2 ^ 64) : subSize m n = m - n := by
  have := toSize_of_nonneg (x := m - n) (by omega) (by omega)
  rw [subSize]
  omega

lemma drop_string (h : q.length ≤ s.sizeBytes) :
    (input.chars.drop (s.offset + s.sizeBytes - q.length)).take q.length =
      (input.string s).drop (s.sizeBytes - q.length) := by
  rw [string, drop_take, drop_drop]
  congr 2 <;> omega

lemma readChar_middle {i : Nat} (hi : i < s.sizeBytes - p.length - q.length) :
    readChar input.chars (s.offset + p.length + i) =
      (((input.string s).drop p.length).take (s.sizeBytes - p.length - q.length))[i]? := by
  have hptr : ((s.offset : Int) + p.length + i).toNat = s.offset + (p.length + i) := by omega
  rw [readChar, if_pos (by omega), hptr, string, getElem?_take_of_lt hi,
    getElem?_drop, getElem?_take_of_lt (by omega), getElem?_drop]

@[simp] lemma checkSuffix_false : checkSuffix input.chars p q s false = some false := by
  simp [checkSuffix]

@[simp] lemma checkMiddle_false {middle : List (MiddlePattern w)} {n : Nat} :
    checkMiddle input.chars p q middle n s false = some false := by
  simp [checkMiddle]

section
variable (hs : some s ∈ input.rows)
include hs

lemma checkPrefix_of_le (hle : (view p).length ≤ s.sizeBytes) :
    ∃ result, checkPrefix input.chars p s = some result ∧
      (result = true ↔ Fits fits (view p) ((input.string s).take (view p).length)) := by
  have hchars := input.offset_add_size_le s hs
  rw [checkPrefix, stringViewLength_eq, take_view, string, take_take, Nat.min_eq_left hle]
  by_cases hnil : view p = []
  · exact ⟨true, by simp [hnil], by simp [hnil]⟩
  · rw [if_pos ⟨length_pos_of_ne_nil hnil, hle⟩]
    exact checkExact_natCast (by omega)

/-- The suffix is compared with the characters before the end of the string, wherever it starts. -/
lemma checkSuffix_of_le (hlen : (view p).length < 2 ^ 31)
    (hle : (view p).length + (view q).length ≤ s.sizeBytes ∨ s.sizeBytes < (view p).length)
    (hoff : (view q).length ≤ s.offset + s.sizeBytes) (hq31 : (view q).length < 2 ^ 31) :
    ∃ result, checkSuffix input.chars p q s true = some result ∧ (result = true ↔ Fits fits (view q)
        ((input.chars.drop (s.offset + s.sizeBytes - (view q).length)).take (view q).length)) := by
  have hsz := input.size_lt s hs
  have hchars := input.offset_add_size_le s hs
  have hsub : (view q).length ≤ subSize s.sizeBytes (view p).length := by
    rcases hle with hle | hlt
    · rw [subSize_of_le (by omega) (by omega)]
      omega
    · have := toSize_of_neg (x := s.sizeBytes - (view p).length) (by omega) (by omega)
      rw [subSize]
      omega
  have hptr : (s.offset : Int) + s.sizeBytes - (view q).length =
      ((s.offset + s.sizeBytes - (view q).length : Nat) : Int) := by omega
  rw [checkSuffix, stringViewLength_eq, stringViewLength_eq, take_view]
  by_cases hnil : view q = []
  · exact ⟨true, by simp [hnil], by simp [hnil]⟩
  · rw [if_pos ⟨length_pos_of_ne_nil hnil, rfl, hsub⟩, hptr]
    exact checkExact_natCast (by omega)

variable (hps : ∀ m ∈ ps, Searchable w m)
include hps

section

variable (hle : (view p).length + (view q).length ≤ s.sizeBytes)
include hle

lemma checkMiddle_of_le :
    ∃ result, checkMiddle input.chars p q (generateShiftAndMaskTables w .ascii ps)
      (totalLength ps) s
        true = some result ∧
      (result = true ↔ Occur fits ps (((input.string s).drop (view p).length).take
        (s.sizeBytes - (view p).length - (view q).length))) := by
  have hsz := input.size_lt s hs
  have hlen : (((input.string s).drop (view p).length).take (s.sizeBytes - (view p).length -
      (view q).length)).length = s.sizeBytes - (view p).length - (view q).length := by
    rw [length_take, length_drop, length_string hs]
    omega
  rw [checkMiddle, stringViewLength_eq, stringViewLength_eq,
    subSize_of_le (m := s.sizeBytes) (by omega) (by omega), subSize_of_le (by omega) (by omega)]
  by_cases hnil : ps = []
  · exact ⟨true, by simp [hnil, generateShiftAndMaskTables], by simp [hnil, Occur]⟩
  · rw [if_pos ⟨by simpa [generateShiftAndMaskTables] using hnil, rfl⟩]
    rw [← fitsIn_ascii]
    generalize hmid : ((input.string s).drop (view p).length).take
      (s.sizeBytes - (view p).length - (view q).length) = middle at hlen ⊢
    rw [← hlen]
    refine checkMultiBytewise_eq (fun i hi => ?_) (by omega) hps
    rw [← hmid]
    exact readChar_middle (by omega)

/-- The strings that are at least as long as prefix and suffix together. -/
lemma kernel_eq_of_le :
    ∃ result, likeFnShiftAndKernel input.chars p q (generateShiftAndMaskTables w .ascii ps)
        (totalLength ps) s = some result ∧
      (result = true ↔ Decomposes fits (view p) ps (view q) (input.string s)) := by
  have hsz := input.size_lt s hs
  have hlen := length_string hs
  obtain ⟨r₁, hr₁, hfits₁⟩ := checkPrefix_of_le (p := p) hs (by omega)
  obtain ⟨r₂, hr₂, hfits₂⟩ := checkSuffix_of_le hs (by omega) (.inl hle) (by omega) (by omega)
  obtain ⟨r₃, hr₃, hocc⟩ := checkMiddle_of_le hs hps hle
  rw [drop_string (by omega)] at hfits₂
  rw [decomposes_iff (by omega), hlen, ← hfits₁, ← hfits₂, ← hocc, likeFnShiftAndKernel, hr₁]
  cases r₁ with
  | false => exact ⟨false, by simp, by simp⟩
  | true =>
    cases r₂ with
    | false => exact ⟨false, by simp [hr₂], by simp⟩
    | true => exact ⟨r₃, by simp [hr₂, hr₃], by simp⟩

end

end

lemma checkSuffix_of_lt (hle : (view p).length ≤ s.sizeBytes)
    (hlt : s.sizeBytes < (view p).length + (view q).length)
    (hsz : s.sizeBytes < 2 ^ 31) : checkSuffix input.chars p q s true = some true := by
  rw [checkSuffix, stringViewLength_eq, stringViewLength_eq,
    subSize_of_le hle (by omega), if_neg (by omega)]

lemma checkSuffix_of_neg (hlt : s.sizeBytes < (view p).length)
    (hlen : (view p).length + (view q).length < 2 ^ 31)
    (hoff : s.offset + s.sizeBytes < (view q).length) :
    checkSuffix input.chars p q s true = none := by
  have hsub : (view q).length ≤ subSize s.sizeBytes (view p).length := by
    have := toSize_of_neg (x := s.sizeBytes - (view p).length) (by omega) (by omega)
    rw [subSize]
    omega
  rw [checkSuffix, stringViewLength_eq, stringViewLength_eq, take_view,
    if_pos ⟨by omega, rfl, hsub⟩]
  exact checkExact_of_neg (ne_nil_of_length_pos (by omega)) (by omega)

lemma checkMiddle_of_lt (hps : ∀ m ∈ ps, Searchable w m)
    (hlen : (view p).length + (view q).length + totalLength ps < 2 ^ 31)
    (hlt : s.sizeBytes < (view p).length + (view q).length) :
    checkMiddle input.chars p q (generateShiftAndMaskTables w .ascii ps) (totalLength ps) s true ≠
      some false := by
  have hsub : subSize (subSize s.sizeBytes (view p).length) (view q).length =
      toSize (s.sizeBytes - (view p).length - (view q).length) := by
    have h₁ := toSize_eq (s.sizeBytes - (view p).length)
    have h₂ := toSize_eq (s.sizeBytes - (view p).length - (view q).length)
    have h₃ := toSize_eq (toSize (s.sizeBytes - (view p).length) - (view q).length)
    rw [subSize, subSize]
    omega
  rw [checkMiddle, stringViewLength_eq, stringViewLength_eq, hsub]
  split_ifs
  · refine checkMultiBytewise_of_neg (fun i hi => ?_) (by omega)
      input.chars_lt.le hps (by omega)
    exact getElem?_eq_none (by omega)
  · simp

/-- Shorter strings are rejected only by the prefix, if they are as long, or else by the suffix, if
the column has enough characters before their end. -/
lemma kernel_of_lt (hs : some s ∈ input.rows) (hps : ∀ m ∈ ps, Searchable w m)
    (hlen : (view p).length + (view q).length + totalLength ps < 2 ^ 31)
    (hlt : s.sizeBytes < (view p).length + (view q).length) :
    likeFnShiftAndKernel input.chars p q (generateShiftAndMaskTables w .ascii ps)
        (totalLength ps) s = some false ↔
      ((view p).length ≤ s.sizeBytes ∧
        ¬ Fits fits (view p) ((input.string s).take (view p).length)) ∨
      (s.sizeBytes < (view p).length ∧ view q ≠ [] ∧ (view q).length ≤ s.offset + s.sizeBytes ∧
        ¬ Fits fits (view q)
          ((input.chars.drop (s.offset + s.sizeBytes - (view q).length)).take
            (view q).length)) := by
  have hsz := input.size_lt s hs
  have hmid : checkMiddle input.chars p q (generateShiftAndMaskTables w .ascii ps)
      (totalLength ps) s true ≠ some false := checkMiddle_of_lt hps hlen hlt
  rw [likeFnShiftAndKernel]
  rcases Nat.lt_or_ge s.sizeBytes (view p).length with hlt' | hle
  · rw [checkPrefix, stringViewLength_eq, if_neg (by omega), bind_eq_bind, bind_some]
    rcases Nat.lt_or_ge (s.offset + s.sizeBytes) (view q).length with hoff | hoff
    · rw [checkSuffix_of_neg hlt' (by omega) hoff]
      simp [Nat.not_le.2 hlt', Nat.not_le.2 hoff]
    · obtain ⟨result, hres, hfits⟩ := checkSuffix_of_le hs (by omega) (.inr hlt') hoff
        (by omega)
      rw [hres, ← hfits]
      cases result with
      | false =>
        have hnil : view q ≠ [] := by
          intro hnil
          simp [hnil] at hfits
        simp [hlt', hnil, hoff]
      | true => simpa [Nat.not_le.2 hlt'] using hmid
  · obtain ⟨result, hres, hfits⟩ := checkPrefix_of_le hs hle
    rw [hres, ← hfits]
    cases result with
    | false => simp [hle]
    | true => simpa [Nat.not_lt.2 hle, checkSuffix_of_lt hle hlt hsz] using hmid

end

end Gqe.Like
