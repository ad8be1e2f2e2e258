import Gqe.Like.Basic

/-!
# The language of a pattern

A pattern with its escape sequences resolved is a list of single characters and of wildcards. The
preprocessing cuts it into the segments between the wildcards for any sequence. It takes a wildcard
at the end for an escaped one if the character before it is the escape character, even where that
is the second of an escaped pair.
-/

namespace Gqe.Like

open Wildcard List

/-! ### SQL patterns -/

def PatternChar.fits (k : PatternChar) (c : UInt8) : Bool := k.isWildcard || decide (c = k.char)

/-- A character of a pattern that is not escaped. -/
def plainItem (c : UInt8) : Item PatternChar :=
  if c = multiWildcard then .many else .cell ⟨c, decide (c = singleWildcard)⟩

@[simp] lemma plainItem_multiWildcard : plainItem multiWildcard = .many := rfl

@[simp] lemma plainItem_of_ne {c : UInt8} (h : c ≠ multiWildcard) :
    plainItem c = .cell ⟨c, decide (c = singleWildcard)⟩ :=
  if_neg h

/-- The items of a pattern, `none` if it ends in an escape character that escapes nothing. -/
def parse (escapeCharacter : UInt8) : List UInt8 → Option (List (Item PatternChar))
  | [] => some []
  | [c] => if c = escapeCharacter then none else some [plainItem c]
  | c :: d :: rest =>
    if c = escapeCharacter then (parse escapeCharacter rest).map (.cell ⟨d, false⟩ :: ·)
    else (parse escapeCharacter (d :: rest)).map (plainItem c :: ·)

variable {e : UInt8} {pattern : List UInt8} {items : List (Item PatternChar)}

/-- A pattern without a dangling escape has these items. -/
inductive Parses (e : UInt8) : List UInt8 → List (Item PatternChar) → Prop
  | nil : Parses e [] []
  | escaped {d : UInt8} {rest : List UInt8} {items : List (Item PatternChar)} :
    Parses e rest items → Parses e (e :: d :: rest) (.cell ⟨d, false⟩ :: items)
  | plain {c : UInt8} {rest : List UInt8} {items : List (Item PatternChar)} :
    c ≠ e → Parses e rest items → Parses e (c :: rest) (plainItem c :: items)

lemma Parses.of_parse (h : parse e pattern = some items) : Parses e pattern items := by
  fun_induction parse e pattern generalizing items with
  | case1 => cases h; exact .nil
  | case2 => simp at h
  | case3 c hc => cases h; exact .plain hc .nil
  | case4 d rest ih =>
    obtain ⟨items, hitems, rfl⟩ := Option.map_eq_some_iff.1 h
    exact .escaped (ih hitems)
  | case5 c d rest hc ih =>
    obtain ⟨items, hitems, rfl⟩ := Option.map_eq_some_iff.1 h
    exact .plain hc (ih hitems)

/-! ### Dangling escapes -/

/-- The run of `e` at the end of a list. -/
def trailing (e : UInt8) (l : List UInt8) : Nat := (l.reverse.takeWhile (· = e)).length

lemma trailing_le (e : UInt8) (l : List UInt8) : trailing e l ≤ l.length :=
  (takeWhile_sublist _).length_le.trans_eq length_reverse

lemma trailing_cons (c : UInt8) (l : List UInt8) :
    trailing e (c :: l) = trailing e l + if trailing e l = l.length ∧ c = e then 1 else 0 := by
  rw [trailing, reverse_cons, takeWhile_append, length_reverse, ← trailing]
  by_cases hl : trailing e l = l.length
  · by_cases hc : c = e <;> simp [hl, hc]
  · rw [if_neg hl, if_neg (by simp [hl]), ← trailing, Nat.add_zero]

lemma Parses.isValid (h : Parses e pattern items) : isValidPatternEscape pattern e := by
  have hrun : trailing e pattern % 2 = 0 := by
    induction h with
    | nil => rfl
    | @escaped d rest items h ih =>
      have := trailing_le e rest
      rw [trailing_cons, trailing_cons, length_cons]
      simp only [and_true]
      split_ifs <;> omega
    | plain hc h ih => simpa [trailing_cons, hc] using ih
  simpa [isValidPatternEscape] using .inr hrun

/-- A pattern with a dangling escape ends in an odd number of escape characters. -/
lemma isValidEscape_eq_false (he : e ≠ 0) (h : parse e pattern = none) :
    isValidPatternEscape pattern e = false := by
  have hrun : trailing e pattern % 2 = 1 := by
    fun_induction parse e pattern with
    | case1 | case3 => cases h
    | case2 => simp [trailing]
    | case4 d rest ih =>
      have hodd := ih (Option.map_eq_none_iff.1 h)
      have hle := trailing_le e rest
      rw [trailing_cons, trailing_cons, length_cons]
      simp only [and_true]
      split_ifs <;> omega
    | case5 c d rest hc ih => simpa [trailing_cons, hc] using ih (Option.map_eq_none_iff.1 h)
  rw [trailing] at hrun
  simp [isValidPatternEscape, he, hrun]

/-! ### The parts of a pattern -/

section

variable (h : Parses e pattern items)
include h

/-- The loop finds the segments that are not empty, the first one after `tmp`. -/
lemma Parses.splitPatterns_eq (hpat : pattern ≠ []) (tmp : SubPattern) :
    splitPatterns e pattern tmp =
      ((tmp ++ (segments items).1) :: (segments items).2).filter (· ≠ []) := by
  induction h generalizing tmp with
  | nil => exact absurd rfl hpat
  | @escaped d rest items h ih =>
    rw [splitPatterns]
    by_cases hrest : rest = []
    · subst hrest
      cases h
      simp
    · simp [ih hrest, hrest]
  | @plain c rest items hc h ih =>
    by_cases hmany : c = multiWildcard
    · subst hmany
      cases rest with
      | nil =>
        cases h
        by_cases htmp : tmp = [] <;> simp [hc, htmp]
      | cons d rest => by_cases htmp : tmp = [] <;> simp [hc, htmp, ih]
    · cases rest with
      | nil =>
        cases h
        simp [hc, hmany]
      | cons d rest => simp [hc, hmany, ih]

lemma Parses.eq_nil_iff : pattern = [] ↔ items = [] := by
  cases h <;> simp

/-- Where the escape character is `%`, no wildcard for any sequence can be written. -/
lemma Parses.ne_multiWildcard (hmany : .many ∈ items) : e ≠ multiWildcard := by
  rintro rfl
  induction h with
  | nil => simp at hmany
  | escaped h ih => exact ih (by simpa using hmany)
  | plain hc h ih =>
    rw [plainItem_of_ne hc] at hmany
    exact ih (by simpa using hmany)

lemma Parses.head?_eq (he : e ≠ multiWildcard) :
    pattern.head? = some multiWildcard ↔ items.head? = some .many := by
  cases h with
  | nil => simp
  | escaped h => simp [he]
  | @plain c rest items hc h => by_cases hmany : c = multiWildcard <;> simp [hmany]

end

def EscapeBeforeLast (e : UInt8) (pattern : List UInt8) : Prop :=
  1 < pattern.length ∧ pattern[pattern.length - 2]? = some e

instance : Decidable (EscapeBeforeLast e pattern) := inferInstanceAs (Decidable (_ ∧ _))

lemma EscapeBeforeLast.cons (h : EscapeBeforeLast e pattern) (c : UInt8) :
    EscapeBeforeLast e (c :: pattern) := by
  obtain ⟨hlen, hlast⟩ := h
  refine ⟨by simp; omega, ?_⟩
  rw [length_cons, show pattern.length + 1 - 2 = pattern.length - 2 + 1 by omega]
  simpa using hlast

/-- A pattern that ends with a single character ends with a character other than `%`, or with an
escaped one. -/
lemma Parses.getLast?_of_cell (h : Parses e pattern items) (hlast : items.getLast? ≠ some .many) :
    pattern.getLast? ≠ some multiWildcard ∨ EscapeBeforeLast e pattern := by
  induction h with
  | nil => simp
  | @escaped d rest items h ih =>
    by_cases hrest : rest = []
    · subst hrest
      exact .inr ⟨by simp, by simp⟩
    · have hitems : items ≠ [] := fun hnil => hrest (h.eq_nil_iff.2 hnil)
      rw [getLast?_cons_of_ne_nil hitems] at hlast
      rw [getLast?_cons_of_ne_nil (by simp), getLast?_cons_of_ne_nil hrest]
      exact (ih hlast).imp_right fun h => (h.cons d).cons e
  | @plain c rest items hc h ih =>
    by_cases hrest : rest = []
    · subst hrest
      cases h
      left
      rintro hmany
      obtain rfl : c = multiWildcard := by simpa using hmany
      simp at hlast
    · have hitems : items ≠ [] := fun hnil => hrest (h.eq_nil_iff.2 hnil)
      rw [getLast?_cons_of_ne_nil hitems] at hlast
      rw [getLast?_cons_of_ne_nil hrest]
      exact (ih hlast).imp_right fun h => h.cons c

/-- A pattern that ends with a wildcard for any sequence ends with `%`. -/
lemma Parses.getLast?_of_many (h : Parses e pattern items) (hlast : items.getLast? = some .many) :
    pattern.getLast? = some multiWildcard := by
  induction h with
  | nil => simp at hlast
  | @escaped d rest items h ih =>
    by_cases hitems : items = []
    · simp [hitems] at hlast
    · have hrest : rest ≠ [] := fun hnil => hitems (h.eq_nil_iff.1 hnil)
      rw [getLast?_cons_of_ne_nil hitems] at hlast
      rw [getLast?_cons_of_ne_nil (by simp), getLast?_cons_of_ne_nil hrest, ih hlast]
  | @plain c rest items hc h ih =>
    by_cases hitems : items = []
    · by_cases hmany : c = multiWildcard
      · simp [hmany, h.eq_nil_iff.2 hitems]
      · simp [hitems, hmany] at hlast
    · have hrest : rest ≠ [] := fun hnil => hitems (h.eq_nil_iff.1 hnil)
      rw [getLast?_cons_of_ne_nil hitems] at hlast
      rw [getLast?_cons_of_ne_nil hrest, ih hlast]

/-! ### Preprocessing -/

/-- The parts of a pattern: what has to be at the start of a string, in between, and at its end. -/
structure Parts where
  first : SubPattern
  middle : List SubPattern
  last : SubPattern
  deriving DecidableEq

/-- The parts the items of a pattern are cut into. They are its segments, but for a pattern without
a wildcard for any sequence, and where a last `%` follows the escape character. -/
def partsOf (e : UInt8) (pattern : List UInt8) (items : List (Item PatternChar)) : Parts :=
  let first := (segments items).1
  match (segments items).2.getLast? with
  | none =>
    if pattern.head? = some multiWildcard then ⟨[], [], first⟩ else ⟨first, [], []⟩
  | some last =>
    let middle := (segments items).2.dropLast.filter (· ≠ [])
    if last = [] ∧ EscapeBeforeLast e pattern then ⟨first, middle.dropLast, middle.getLastD []⟩
    else ⟨first, middle, last⟩

def PreprocessedPattern.parts (p : PreprocessedPattern) : Parts :=
  ⟨p.patternPrefix, p.middlePatterns, p.patternSuffix⟩

variable {ps : List SubPattern}

lemma splitSuffix_of_takes
    (h : pattern.getLast? ≠ some multiWildcard ∨ EscapeBeforeLast e pattern) :
    splitSuffix pattern e ps = (ps.dropLast, ps.getLastD []) := by
  by_cases hps : ps = []
  · simp [splitSuffix, hps]
  · exact if_pos ⟨hps, h⟩

section

open PreprocessedPattern

variable (h : Parses e pattern items)
include h

/-- A pattern without a wildcard for any sequence is the prefix, or the suffix if it starts with
`%`. -/
lemma Parses.parts_eq_of_no_many (hsegs : (segments items).2 = []) :
    (preprocessLike pattern e true).parts = partsOf e pattern items := by
  have hmany := segments_snd_eq_nil.1 hsegs
  by_cases hnil : pattern = []
  · obtain rfl := h.eq_nil_iff.1 hnil
    simp [hnil, parts, partsOf, preprocessLike, splitPrefix, splitSuffix]
  · have hitems : items ≠ [] := fun hitems => hnil (h.eq_nil_iff.2 hitems)
    have hfst : (segments items).1 ≠ [] := fun hfst =>
      hmany (mem_of_head? ((segments_fst_eq_nil hitems).1 hfst))
    have hsplit : splitPatterns e pattern [] = [(segments items).1] := by
      rw [h.splitPatterns_eq hnil, hsegs]
      simp [hfst]
    have hlast := h.getLast?_of_cell fun hlast => hmany (mem_of_getLast? hlast)
    by_cases hhead : pattern.head? = some multiWildcard <;>
      simp [parts, partsOf, hsegs, preprocessLike, hsplit, splitPrefix, hhead,
        splitSuffix_of_takes hlast]

/-- The parts of a pattern are its segments, except that a last `%` after the escape character
counts as a part of the segment before it. -/
lemma Parses.parts_eq_of_many {q : SubPattern} (hsegs : (segments items).2 = ps ++ [q]) :
    (preprocessLike pattern e true).parts = partsOf e pattern items := by
  have hmany : .many ∈ items := many_mem_of_segments hsegs
  have hitems : items ≠ [] := ne_nil_of_mem hmany
  have hnil : pattern ≠ [] := fun hnil => hitems (h.eq_nil_iff.1 hnil)
  have hfirst : splitPrefix pattern (splitPatterns e pattern []) =
      ((segments items).1, (segments items).2.filter (· ≠ [])) := by
    rw [h.splitPatterns_eq hnil, filter_cons]
    have hhead := h.head?_eq (h.ne_multiWildcard hmany)
    rw [← segments_fst_eq_nil hitems] at hhead
    by_cases hfst : (segments items).1 = []
    · simp only [hfst]
      cases hrest : (segments items).2.filter (¬ · = []) <;> simp [splitPrefix, hhead.2 hfst]
    · simp [hfst, splitPrefix, hhead]
  have hq := last_segment_eq_nil hsegs
  rw [hsegs] at hfirst
  rw [partsOf, hsegs]
  by_cases hlast : q = []
  · have hpat := h.getLast?_of_many (hq.1 hlast)
    by_cases hesc : EscapeBeforeLast e pattern
    · simp [parts, preprocessLike, hfirst, splitSuffix_of_takes (.inr hesc), hlast, hesc]
    · rw [EscapeBeforeLast] at hesc
      simp [parts, preprocessLike, hfirst, splitSuffix, EscapeBeforeLast, hpat, hlast, hesc]
  · have htakes := h.getLast?_of_cell fun hmany => hlast (hq.2 hmany)
    simp [parts, preprocessLike, hfirst, splitSuffix_of_takes htakes, hlast]

lemma Parses.parts_eq : (preprocessLike pattern e true).parts = partsOf e pattern items := by
  rcases eq_nil_or_concat' (segments items).2 with hnil | ⟨ps, q, hcat⟩
  · exact h.parts_eq_of_no_many hnil
  · exact h.parts_eq_of_many hcat

end

/-! ### Sizes and characters of the parts -/

section

variable (h : Parses e pattern items)
include h

lemma Parses.length_le : items.length ≤ pattern.length := by
  induction h with
  | nil => simp
  | escaped h ih =>
    simp only [length_cons]
    omega
  | plain hc h ih => simpa using ih

lemma Parses.char_mem {k : PatternChar} (hk : .cell k ∈ items) : k.char ∈ pattern := by
  induction h with
  | nil => simp at hk
  | escaped h ih =>
    rcases mem_cons.1 hk with hk | hk
    · cases hk
      simp
    · simp [ih hk]
  | @plain c rest items hc h ih =>
    rcases mem_cons.1 hk with hk | hk
    · by_cases hmany : c = multiWildcard
      · simp [hmany] at hk
      · rw [plainItem_of_ne hmany] at hk
        cases hk
        simp
    · simp [ih hk]

lemma Parses.flatten_splitPatterns :
    (splitPatterns e pattern []).flatten = (segments items).1 ++ (segments items).2.flatten := by
  by_cases hnil : pattern = []
  · obtain rfl := h.eq_nil_iff.1 hnil
    simp [hnil]
  · rw [h.splitPatterns_eq hnil, flatten_filter_ne_nil]
    simp

end

lemma splitPrefix_append (pattern : List UInt8) (ps : List SubPattern) :
    (splitPrefix pattern ps).1 ++ (splitPrefix pattern ps).2.flatten = ps.flatten ∧
      (splitPrefix pattern ps).2 ⊆ ps := by
  cases ps with
  | nil => simp [splitPrefix]
  | cons p ps =>
    rw [splitPrefix]
    split_ifs <;> simp

lemma splitSuffix_append (pattern : List UInt8) (e : UInt8) (ps : List SubPattern) :
    (splitSuffix pattern e ps).1.flatten ++ (splitSuffix pattern e ps).2 = ps.flatten ∧
      (splitSuffix pattern e ps).1 ⊆ ps := by
  rw [splitSuffix]
  split_ifs with h
  · obtain ⟨ps, p, rfl⟩ := (eq_nil_or_concat' ps).resolve_left h.1
    simp
  · simp

section

variable (h : Parses e pattern items)
include h

/-- The parts of a pattern, one after another, are all of its single characters. -/
lemma Parses.flatten_parts : (partsOf e pattern items).first ++
    ((partsOf e pattern items).middle.flatten ++ (partsOf e pattern items).last) =
      (segments items).1 ++ (segments items).2.flatten := by
  rw [← h.flatten_splitPatterns, ← h.parts_eq]
  exact (congrArg (_ ++ ·) (splitSuffix_append pattern e _).1).trans
    (splitPrefix_append pattern _).1

lemma Parses.middle_ne_nil {p : SubPattern} (hp : p ∈ (partsOf e pattern items).middle) :
    p ≠ [] := by
  rw [← h.parts_eq] at hp
  have hmem : p ∈ splitPatterns e pattern [] :=
    (splitPrefix_append pattern _).2 ((splitSuffix_append pattern e _).2 hp)
  by_cases hnil : pattern = []
  · simp [hnil] at hmem
  · rw [h.splitPatterns_eq hnil] at hmem
    simpa using (mem_filter.1 hmem).2

end

end Gqe.Like
