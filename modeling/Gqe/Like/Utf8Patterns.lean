import Gqe.Lib.Utf8
import Gqe.Like.Pattern

/-!
# Patterns of characters

LIKE is about characters. A pattern of characters, encoded, is a pattern of bytes, in which a
wildcard for a character has become one for a byte. This makes no difference where every wildcard
for a character is next to one for any sequence, and no other one is between the same literals.
-/

namespace Gqe.Like

open Wildcard Utf8 List PatternChar

/-! ### SQL patterns -/

/-- A character of a pattern with its wildcard flag. -/
structure Utf8Char where
  char : Char
  isWildcard : Bool
  deriving DecidableEq

@[simp] def Utf8Char.fits (k : Utf8Char) (c : Char) : Bool := k.isWildcard || decide (c = k.char)

@[simp] def plainUtf8Item (c : Char) : Item Utf8Char :=
  if c = '%' then .many else .cell ⟨c, decide (c = '_')⟩

/-- The items of a pattern, `none` if it ends in an escape character that escapes nothing. -/
def parseUtf8 (e : Char) : List Char → Option (List (Item Utf8Char))
  | [] => some []
  | [c] => if c = e then none else some [plainUtf8Item c]
  | c :: d :: rest =>
    if c = e then (parseUtf8 e rest).map (.cell ⟨d, false⟩ :: ·)
    else (parseUtf8 e (d :: rest)).map (plainUtf8Item c :: ·)

/-! ### Bytes -/

@[simp] def Utf8Char.bytes (k : Utf8Char) : SubPattern :=
  if k.isWildcard then [⟨singleWildcard, true⟩] else (code k.char).map (⟨·, false⟩)

def segmentBytes (p : List Utf8Char) : SubPattern := p.flatMap Utf8Char.bytes

@[simp] def itemsBytes : List (Item Utf8Char) → List (Item PatternChar)
  | [] => []
  | .cell k :: items => k.bytes.map .cell ++ itemsBytes items
  | .many :: items => .many :: itemsBytes items

lemma itemsBytes_append (p q : List (Item Utf8Char)) :
    itemsBytes (p ++ q) = itemsBytes p ++ itemsBytes q := by
  induction p with
  | nil => rfl
  | cons i p ih => cases i <;> simp [ih]

lemma segments_cells_append (p : SubPattern) (items : List (Item PatternChar)) :
    segments (p.map .cell ++ items) = (p ++ (segments items).1, (segments items).2) := by
  induction p with
  | nil => rfl
  | cons k p ih => rw [map_cons, cons_append, segments, ih]; rfl

lemma segments_itemsBytes (items : List (Item Utf8Char)) : segments (itemsBytes items) =
      (segmentBytes (segments items).1, (segments items).2.map segmentBytes) := by
  induction items with
  | nil => rfl
  | cons i items ih =>
    cases i with
    | cell k => rw [itemsBytes, segments_cells_append, ih]; rfl
    | many => rw [itemsBytes, segments, ih]; rfl

def escapeByte (e : Char) : UInt8 := UInt8.ofNat e.toNat

variable {c : Char}

lemma code_of_lt (h : c.toNat < 0x80) : code c = [escapeByte c] := by
  rw [code, codePointBytes, if_pos h]
  rfl

lemma toNat_escapeByte (h : c.toNat < 0x80) : (escapeByte c).toNat = c.toNat :=
  Nat.mod_eq_of_lt (by omega)

lemma le_of_mem_code (h : 0x80 ≤ c.toNat) {b : UInt8} (hb : b ∈ code c) : 0x80 ≤ b.toNat := by
  have hmem : b.toNat ∈ codePointBytes c.toNat := by
    rw [← map_toNat_code]
    exact mem_map_of_mem hb
  unfold codePointBytes at hmem
  split_ifs at hmem <;> simp only [mem_cons, not_mem_nil, or_false] at hmem <;> omega

section Parses

variable {e : Char} (he : e.toNat < 0x80) {rest : List UInt8} {items : List (Item PatternChar)}
  (h : Parses (escapeByte e) rest items)
include he h

lemma Parses.high_append {l : List UInt8} (hl : ∀ b ∈ l, 0x80 ≤ b.toNat) :
    Parses (escapeByte e) (l ++ rest) (l.map (fun b => .cell ⟨b, false⟩) ++ items) := by
  induction l with
  | nil => exact h
  | cons b l ih =>
    obtain ⟨hb, hl⟩ := forall_mem_cons.1 hl
    have hne : ∀ c : UInt8, c.toNat < 0x80 → b ≠ c := by
      rintro c hc rfl
      omega
    have hplain := plain (hne (escapeByte e) (by rwa [toNat_escapeByte he])) (ih hl)
    rwa [plainItem_of_ne (hne _ (by decide)), decide_eq_false (hne _ (by decide))] at hplain

lemma Parses.plain_code (hc : c ≠ e) :
    Parses (escapeByte e) (code c ++ rest) (itemsBytes [plainUtf8Item c] ++ items) := by
  rcases Nat.lt_or_ge c.toNat 0x80 with hlt | hge
  · have hbyte : ∀ d : Char, d.toNat < 0x80 → (escapeByte c = escapeByte d ↔ c = d) := by
      intro d hd
      rw [← UInt8.toNat_inj, toNat_escapeByte hlt, toNat_escapeByte hd, Char.toNat_inj]
    have hplain := plain (mt (hbyte e he).1 hc) h
    have hmany : escapeByte c = multiWildcard ↔ c = '%' := hbyte '%' (by decide)
    have hsingle : escapeByte c = singleWildcard ↔ c = '_' := hbyte '_' (by decide)
    rw [code_of_lt hlt]
    by_cases hp : c = '%'
    · rw [hmany.2 hp] at hplain ⊢
      simpa [hp] using hplain
    · rw [plainItem_of_ne (mt hmany.1 hp)] at hplain
      by_cases hs : c = '_'
      · rw [hsingle.2 hs] at hplain ⊢
        simpa [hs] using hplain
      · simpa [hp, hs, code_of_lt hlt, hsingle] using hplain
  · have hp : c ≠ '%' := by
      rintro rfl
      exact absurd hge (by decide)
    have hs : c ≠ '_' := by
      rintro rfl
      exact absurd hge (by decide)
    have := h.high_append he fun b => le_of_mem_code hge
    simpa [hp, hs, Function.comp_def] using this

lemma Parses.escaped_code (d : Char) : Parses (escapeByte e) (escapeByte e :: (code d ++ rest))
    (itemsBytes [.cell ⟨d, false⟩] ++ items) := by
  obtain ⟨b, tail, hcode, -, htail⟩ := synchronizes_code.eq_cons d
  have hhigh : ∀ x ∈ tail, 0x80 ≤ x.toNat := by
    intro x hx
    have := htail x hx
    unfold IsFirst at this
    omega
  simpa [hcode, Function.comp_def] using
    escaped (h.high_append he hhigh)

end Parses

/-- The encoded pattern has the items of the pattern. -/
lemma Parses.of_parseUtf8 {e : Char} (he : e.toNat < 0x80) {pattern : List Char}
    {items : List (Item Utf8Char)} (h : parseUtf8 e pattern = some items) :
    Parses (escapeByte e) (encode pattern) (itemsBytes items) := by
  fun_induction parseUtf8 e pattern generalizing items with
  | case1 => cases h; exact .nil
  | case2 => simp at h
  | case3 c hc => cases h; simpa [encode] using nil.plain_code he hc
  | case4 d rest ih =>
    obtain ⟨items, hitems, rfl⟩ := Option.map_eq_some_iff.1 h
    have := (ih hitems).escaped_code he d
    rwa [← itemsBytes_append, ← singleton_append, ← code_of_lt he] at this
  | case5 c d rest hc ih =>
    obtain ⟨items, hitems, rfl⟩ := Option.map_eq_some_iff.1 h
    have := (ih hitems).plain_code he hc
    rwa [← itemsBytes_append] at this

/-! ### Wildcards for one character -/

/-- The wildcards since the last literal: none, one for a character, only ones for any sequence, or
one for a character next to them. -/
inductive Gap where
  | empty | single | many | both
  deriving DecidableEq

/-- The wildcards after one more item, `none` if two of them are for a character, or if one is
between two literals. -/
def Gap.next : Gap → Item Utf8Char → Option Gap
  | .empty, .many | .many, .many => some .many
  | .single, .many | .both, .many => some .both
  | .empty, .cell k => some (if k.isWildcard then .single else .empty)
  | .many, .cell k => some (if k.isWildcard then .both else .empty)
  | .both, .cell k => if k.isWildcard then none else some .empty
  | .single, .cell _ => none

/-- Every wildcard for a character is next to one for any sequence, and the only one between the
same literals. -/
def spaced : Gap → List (Item Utf8Char) → Bool
  | g, [] => decide (g ≠ .single)
  | g, i :: items => (g.next i).any (spaced · items)

def Gap.items : Gap → List (Item Utf8Char)
  | .empty => []
  | .single => [.cell ⟨'_', true⟩]
  | .many => [.many]
  | .both => [.cell ⟨'_', true⟩, .many]

/-- The encoded pattern matches the encoded strings that match the pattern. -/
def SameMatches (items : List (Item Utf8Char)) : Prop :=
  ∀ s, matchesPattern fits (itemsBytes items) (encode s) ↔
    matchesPattern Utf8Char.fits items s

/-- The two patterns match the same strings, in characters and in bytes. -/
def SameLanguage (p q : List (Item Utf8Char)) : Prop :=
  (∀ s, matchesPattern fits (itemsBytes p) s ↔
    matchesPattern fits (itemsBytes q) s) ∧
  ∀ s, matchesPattern Utf8Char.fits p s ↔ matchesPattern Utf8Char.fits q s

section Spaced

variable {p q : List (Item Utf8Char)} {k : Utf8Char} {g : Gap}

lemma SameMatches.of_sameLanguage (h : SameMatches q) (hpq : SameLanguage p q) : SameMatches p :=
  fun s => (hpq.1 _).trans ((h s).trans (hpq.2 s).symm)

lemma SameLanguage.cons (h : SameLanguage p q) (i : Item Utf8Char) :
    SameLanguage (i :: p) (i :: q) := by
  have happ : ∀ p, i :: p = [i] ++ p := fun _ => rfl
  rw [happ p, happ q]
  constructor <;> intro s
  · simp only [itemsBytes_append, matchesPattern_append, h.1]
  · simp only [matchesPattern_append, h.2]

lemma itemsBytes_wildcard (hk : k.isWildcard = true) :
    itemsBytes (.cell k :: p) = .cell ⟨singleWildcard, true⟩ :: itemsBytes p := by
  simp [hk]

lemma sameLanguage_wildcard {k' : Utf8Char} (hk : k.isWildcard = true)
    (hk' : k'.isWildcard = true) :
    SameLanguage (.cell k :: p) (.cell k' :: p) := by
  constructor <;> intro s
  · rw [itemsBytes_wildcard hk, itemsBytes_wildcard hk']
  · simp [matchesPattern_cell, hk, hk']

lemma sameLanguage_many_many : SameLanguage (.many :: .many :: p) (.many :: p) :=
  ⟨fun _ => matches_many_many, fun _ => matches_many_many⟩

lemma sameLanguage_many_wildcard (hk : k.isWildcard = true) :
    SameLanguage (.many :: .cell k :: p) (.cell k :: .many :: p) := by
  constructor <;> intro s
  · have hmany : ∀ p, itemsBytes (.many :: p) = .many :: itemsBytes p := fun _ => rfl
    rw [hmany, itemsBytes_wildcard hk, itemsBytes_wildcard hk, hmany,
      matches_many_cell fun c => by simp [fits]]
  · exact matches_many_cell fun c => by simp [hk]

lemma encode_eq_nil_iff {s : List Char} : encode s = [] ↔ s = [] := by
  cases s with
  | nil => simp [encode]
  | cons c s =>
    obtain ⟨b, rest, hcode, -⟩ := synchronizes_code.eq_cons c
    simp [encode, hcode]

lemma sameMatches_gap (hg : g ≠ .single) : SameMatches g.items := by
  intro s
  cases g with
  | empty => simp [Gap.items, encode_eq_nil_iff]
  | single => exact absurd rfl hg
  | many => simp [Gap.items]
  | both =>
    rw [Gap.items, itemsBytes_wildcard rfl, itemsBytes]
    have h : ∀ {κ α : Type} {fits : κ → α → Bool} {k : κ}, (∀ c, fits k c = true) → ∀ {s : List α},
        matchesPattern fits [.cell k, .many] s ↔ s ≠ [] := by
      intro κ α fits k hk s
      cases s <;> simp [hk]
    rw [itemsBytes, h fun c => by simp [fits], h fun c => by simp, ne_eq,
      encode_eq_nil_iff]

lemma matches_literal {l : List UInt8} {items : List (Item PatternChar)} {s : List UInt8} :
    matchesPattern fits ((l.map (⟨·, false⟩)).map .cell ++ items) s ↔
      ∃ v, s = l ++ v ∧ matchesPattern fits items v := by
  induction l generalizing s with
  | nil => simp
  | cons b l ih => simp [matchesPattern_cell, fits, ih, -map_map]

/-- A literal is found at a boundary. -/
lemma sameMatches_literal (hg : g ≠ .single) (hk : k.isWildcard = false) (h : SameMatches p) :
    SameMatches (g.items ++ .cell k :: p) := by
  intro s
  rw [itemsBytes_append, matchesPattern_append, matchesPattern_append]
  simp only [itemsBytes, Utf8Char.bytes, hk, Bool.false_eq_true, if_false, matches_literal,
    matchesPattern_cell, Utf8Char.fits, Bool.false_or, decide_eq_true_eq]
  constructor
  · rintro ⟨u, _, hs, hu, v, rfl, hv⟩
    have hhead : ∀ b ∈ (code k.char ++ v).head?, IsFirst b := by
      obtain ⟨b, rest, hcode, hb, -⟩ := synchronizes_code.eq_cons k.char
      simpa [hcode] using hb
    obtain ⟨s₁, s₂, rfl, rfl, hs₂⟩ := synchronizes_code.exists_of_flatMap_eq_append hs hhead
    obtain ⟨t, rfl, rfl⟩ := synchronizes_code.eq_cons_of_flatMap hs₂.symm
    exact ⟨s₁, _, rfl, (sameMatches_gap hg s₁).1 hu, _, t, rfl, rfl, (h t).1 hv⟩
  · rintro ⟨s₁, _, rfl, hs₁, _, t, rfl, rfl, ht⟩
    exact ⟨encode s₁, code k.char ++ encode t, by simp [encode], (sameMatches_gap hg s₁).2 hs₁,
      encode t, rfl, (h t).2 ht⟩

/-- The induction is on the items after some wildcards. -/
lemma sameMatches_of_spaced (h : spaced g p = true) : SameMatches (g.items ++ p) := by
  induction p generalizing g with
  | nil => simpa using sameMatches_gap (by simpa [spaced] using h)
  | cons i p ih =>
    obtain ⟨g', hnext, h⟩ := (Option.any_eq_true _ _).1 h
    have hp := ih h
    cases i with
    | many =>
      cases g with
      | empty | single =>
        obtain rfl := Option.some.inj hnext
        exact hp
      | many =>
        obtain rfl := Option.some.inj hnext
        exact hp.of_sameLanguage sameLanguage_many_many
      | both =>
        obtain rfl := Option.some.inj hnext
        exact hp.of_sameLanguage (sameLanguage_many_many.cons _)
    | cell k =>
      cases hk : k.isWildcard with
      | true =>
        cases g with
        | empty =>
          obtain rfl := Option.some.inj (by simpa [Gap.next, hk] using hnext)
          exact hp.of_sameLanguage (sameLanguage_wildcard hk rfl)
        | many =>
          obtain rfl := Option.some.inj (by simpa [Gap.next, hk] using hnext)
          exact (hp.of_sameLanguage (sameLanguage_wildcard hk rfl)).of_sameLanguage
            (sameLanguage_many_wildcard hk)
        | single => simp [Gap.next] at hnext
        | both => simp [Gap.next, hk] at hnext
      | false =>
        have hg : g ≠ .single := by
          rintro rfl
          simp [Gap.next] at hnext
        obtain rfl : g' = .empty := by cases g <;> simp_all [Gap.next]
        exact sameMatches_literal hg hk hp

end Spaced

/-! ### Strings of the length of a pattern -/

/-- The shortest string with the literals of a pattern. -/
@[simp] def shortest : List (Item Utf8Char) → List Char
  | [] => []
  | .cell k :: items => (if k.isWildcard then 'a' else k.char) :: shortest items
  | .many :: items => shortest items

section Shortest

variable (p q : List (Item Utf8Char))

lemma shortest_append : shortest (p ++ q) = shortest p ++ shortest q := by
  induction p with
  | nil => rfl
  | cons i p ih => cases i <;> simp [ih]

lemma matches_shortest : matchesPattern Utf8Char.fits p (shortest p) := by
  induction p with
  | nil => rfl
  | cons i p ih =>
    cases i with
    | cell k => cases hk : k.isWildcard <;> simp [hk, ih]
    | many => exact matchesPattern_many.2 ⟨[], _, rfl, ih⟩

lemma matches_shortest_bytes :
    matchesPattern fits (itemsBytes p) (encode (shortest p)) := by
  induction p with
  | nil => rfl
  | cons i p ih =>
    cases i with
    | cell k =>
      cases hk : k.isWildcard with
      | true =>
        rw [itemsBytes_wildcard hk]
        exact matchesPattern_cell.2 ⟨_, _, by simp [hk]; rfl, rfl, ih⟩
      | false =>
        simp only [itemsBytes, Utf8Char.bytes, hk]
        exact matches_literal.2 ⟨_, by simp [encode, hk], ih⟩
    | many => exact matchesPattern_many.2 ⟨[], _, rfl, ih⟩

lemma length_shortest :
    (segments p).1.length + (segments p).2.flatten.length = (shortest p).length ∧
      (segments (itemsBytes p)).1.length + (segments (itemsBytes p)).2.flatten.length =
        (encode (shortest p)).length := by
  induction p with
  | nil => exact ⟨rfl, rfl⟩
  | cons i p ih =>
    cases i with
    | cell k =>
      have hbytes : k.bytes.length = (code (if k.isWildcard then 'a' else k.char)).length := by
        cases hk : k.isWildcard <;> simp [hk]
        rfl
      rw [itemsBytes, segments_cells_append]
      simp only [segments, shortest, encode, flatMap_cons, length_append, length_cons] at ih ⊢
      omega
    | many => simpa using ih

end Shortest

/-! ### Wildcards that are not spaced -/

/-- Two wildcards for a character without a literal in between, or one between two literals. -/
inductive Unspaced (items : List (Item Utf8Char)) : Prop
  | two {p m q : List (Item Utf8Char)} {k k' : Utf8Char} (hk : k.isWildcard = true)
      (hk' : k'.isWildcard = true) (hm : ∀ i ∈ m, i = .many)
      (heq : items = p ++ .cell k :: (m ++ .cell k' :: q))
  | lone {p q : List (Item Utf8Char)} {l k c : Utf8Char} (hl : l.isWildcard = false)
      (hk : k.isWildcard = true) (hc : c.isWildcard = false)
      (heq : items = (p ++ [.cell l]) ++ .cell k :: .cell c :: q)

/-- The items end with the wildcards. -/
def Gap.Ends : Gap → List (Item Utf8Char) → Prop
  | .empty, items => ∃ p l, items = p ++ [.cell l] ∧ l.isWildcard = false
  | .single, items => ∃ p l k, items = p ++ [.cell l, .cell k] ∧ l.isWildcard = false ∧
      k.isWildcard = true
  | .many, _ => True
  | .both, items => ∃ p k m, items = p ++ .cell k :: m ∧ k.isWildcard = true ∧ ∀ i ∈ m, i = .many

lemma unspaced_of_spaced_eq_false {g : Gap} {p q : List (Item Utf8Char)} (hp : g.Ends p)
    (h : spaced g q = false) (hlast : (p ++ q).getLast? = some .many) : Unspaced (p ++ q) := by
  induction q generalizing g p with
  | nil =>
    obtain rfl : g = .single := by simpa [spaced] using h
    obtain ⟨p, l, k, rfl, -⟩ := hp
    simp at hlast
  | cons i q ih =>
    have hmove : p ++ i :: q = (p ++ [i]) ++ q := by simp
    have hstep : ∀ g', g.next i = some g' → g'.Ends (p ++ [i]) → Unspaced (p ++ i :: q) := by
      intro g' hnext hends
      rw [hmove] at hlast ⊢
      exact ih hends (by simpa [spaced, hnext] using h) hlast
    cases i with
    | many =>
      cases g with
      | empty | many => exact hstep .many rfl trivial
      | single =>
        obtain ⟨p, l, k, rfl, hl, hk⟩ := hp
        exact hstep .both rfl ⟨p ++ [.cell l], k, [.many], by simp, hk, by simp⟩
      | both =>
        obtain ⟨p, k, m, rfl, hk, hm⟩ := hp
        exact hstep .both rfl ⟨p, k, m ++ [.many], by simp, hk, by simpa [or_imp] using hm⟩
    | cell k =>
      cases hk : k.isWildcard with
      | true =>
        cases g with
        | empty =>
          obtain ⟨p, l, rfl, hl⟩ := hp
          exact hstep .single (by simp [Gap.next, hk]) ⟨p, l, k, by simp, hl, hk⟩
        | many => exact hstep .both (by simp [Gap.next, hk]) ⟨p, k, [], rfl, hk, by simp⟩
        | single =>
          obtain ⟨p, l, k₀, rfl, hl, hk₀⟩ := hp
          exact .two (p := p ++ [.cell l]) (m := []) (q := q) hk₀ hk (by simp) (by simp)
        | both =>
          obtain ⟨p, k₀, m, rfl, hk₀, hm⟩ := hp
          exact .two (p := p) (q := q) hk₀ hk hm (by simp)
      | false =>
        cases g with
        | empty | many | both => exact hstep .empty (by simp [Gap.next, hk]) ⟨p, k, rfl, hk⟩
        | single =>
          obtain ⟨p, l, k₀, rfl, hl, hk₀⟩ := hp
          exact .lone (p := p) (q := q) hl hk₀ hk (by simp)

lemma lt_of_getLast?_code {b : UInt8} (h : (code c).getLast? = some b) : b.toNat < 0xC0 := by
  have hlast : (codePointBytes c.toNat).getLast? = some b.toNat := by
    rw [← map_toNat_code, getLast?_map, h]
    rfl
  unfold codePointBytes at hlast
  split_ifs at hlast <;> simp at hlast <;> omega

def twoBytes : Char := 'é'

lemma code_twoBytes : code twoBytes = [0xC3, 0xA9] := by decide

/-- A string for which the encoded pattern differs, by a character of two bytes: it stands for two
wildcards, or it does not fit between two literals. -/
lemma Unspaced.exists_ne {items : List (Item Utf8Char)} (h : Unspaced items) :
    ∃ s, (encode s).length ≤ (encode (shortest items)).length + 1 ∧
      ¬ (matchesPattern fits (itemsBytes items) (encode s) ↔
        matchesPattern Utf8Char.fits items s) := by
  cases h with
  | @two p m q k k' hk hk' hm heq =>
    subst heq
    have hnil : shortest m = [] := by
      induction m with
      | nil => rfl
      | cons i m ih =>
        obtain ⟨rfl, hrest⟩ := forall_mem_cons.1 hm
        exact ih hrest
    refine ⟨shortest p ++ twoBytes :: shortest q, ?_, fun hiff => ?_⟩
    · simp [shortest_append, hnil, encode, hk, hk', code_twoBytes, code_of_lt]
    · have hmatch : matchesPattern Utf8Char.fits (p ++ .cell k :: (m ++ .cell k' :: q))
          (shortest p ++ twoBytes :: shortest q) := by
        refine hiff.1 ?_
        rw [itemsBytes_append, itemsBytes_wildcard hk, itemsBytes_append, itemsBytes_wildcard hk']
        refine matchesPattern_append.2 ⟨encode (shortest p), code twoBytes ++ encode (shortest q),
          by simp [encode], matches_shortest_bytes p, ?_⟩
        have hm := matches_shortest_bytes m
        rw [hnil] at hm
        exact matchesPattern_append.2 ⟨[], _, rfl, hm, matchesPattern_cell.2 ⟨_, _, rfl, rfl,
          matches_shortest_bytes q⟩⟩
      have hlen := length_le_of_matches hmatch
      rw [(length_shortest _).1] at hlen
      simp [shortest_append] at hlen
      omega
  | @lone p q l k c hl hk hc heq =>
    subst heq
    refine ⟨shortest (p ++ [.cell l]) ++ twoBytes :: shortest (.cell c :: q), ?_, fun hiff => ?_⟩
    · simp [shortest_append, encode, hk, code_twoBytes, code_of_lt]
      omega
    have hmatch := hiff.2 (matchesPattern_append.2 ⟨_, _, rfl, matches_shortest _,
      matchesPattern_cell.2 ⟨_, _, rfl, by simp [hk], matches_shortest _⟩⟩)
    rw [itemsBytes_append, itemsBytes_wildcard hk] at hmatch
    obtain ⟨u, v, heq, hu, hv⟩ := matchesPattern_append.1 hmatch
    obtain ⟨b, v, rfl, -, hv⟩ := matchesPattern_cell.1 hv
    have hlu := length_le_of_matches hu
    have hlv := length_le_of_matches hv
    rw [(length_shortest _).2] at hlu hlv
    have hcode : encode (shortest (p ++ [.cell l]) ++ twoBytes :: shortest (.cell c :: q)) =
        encode (shortest (p ++ [.cell l])) ++ 0xC3 :: 0xA9 :: encode (shortest (.cell c :: q)) := by
      simp [encode, code_twoBytes]
    rw [hcode] at heq
    have hlen := congrArg length heq
    simp only [length_append, length_cons] at hlen
    -- the wildcard is for the first or for the second byte
    rcases Nat.lt_or_ge (encode (shortest (p ++ [.cell l]))).length u.length with hlt | hge
    · have hsplit : (encode (shortest (p ++ [.cell l])) ++ [0xC3]) ++
          0xA9 :: encode (shortest (.cell c :: q)) = u ++ b :: v := by simpa using heq
      obtain ⟨rfl, -⟩ := append_inj hsplit (by simp; omega)
      rw [itemsBytes_append, matchesPattern_append] at hu
      obtain ⟨u₁, u₂, hu₁, -, hu₂⟩ := hu
      simp only [itemsBytes, Utf8Char.bytes, hl] at hu₂
      obtain ⟨w, rfl, hw⟩ := matches_literal.1 hu₂
      obtain rfl := isEmpty_iff.1 hw
      have hlast := congrArg getLast? hu₁
      obtain ⟨d, tail, hd, -⟩ := synchronizes_code.eq_cons l.char
      have hne : code l.char ≠ [] := by simp [hd]
      rw [getLast?_concat, append_nil, getLast?_append_of_ne_nil _ hne] at hlast
      exact absurd (lt_of_getLast?_code hlast.symm) (by decide)
    · obtain ⟨rfl, htail⟩ := append_inj heq (by omega)
      obtain ⟨-, rfl⟩ := cons.inj htail
      simp only [itemsBytes, Utf8Char.bytes, hc] at hv
      obtain ⟨w, hw, -⟩ := matches_literal.1 hv
      obtain ⟨d, tail, hd, hfst, -⟩ := synchronizes_code.eq_cons c.char
      rw [hd, cons_append, cons.injEq] at hw
      rw [← hw.1] at hfst
      exact hfst (by decide)

end Gqe.Like
