import Gqe.Like.Utf8Correctness

/-!
# LIKE without wildcards for a character

For patterns without a wildcard for a character, `like_utf8_bytewise` does what `like` does. On
strings that are long enough it is right unless the prefix or suffix has a character of several
bytes, or a part is taken for a suffix.
-/

namespace Gqe.Like

open Wildcard Utf8 List PatternChar

variable {device : Device} {escape : List UInt8} {e : Char} {pattern : List Char}
  {items : List (Item Utf8Char)}

/-! ### The bytewise encoding -/

lemma maskTables_utf8Bytewise (w : Nat) {ps : List SubPattern}
    (h : ∀ p ∈ ps, ∀ k ∈ p, k.isWildcard = false) :
    generateShiftAndMaskTables w .utf8Bytewise ps = generateShiftAndMaskTables w .ascii ps := by
  refine map_congr_left fun p hp => congrArg (MiddlePattern.mk · p.length) ?_
  refine foldl_ext _ _ _ fun mask x hx => ?_
  have hwildcard := h p hp x.1 (fst_mem_of_mem_zipIdx hx)
  simp [hwildcard]

/-- Without wildcards for a character, both encodings are the same. -/
lemma likeUtf8Bytewise_eq_like {bytes : List UInt8} {input : StringsColumn}
    (h : ∀ p ∈ splitPatterns (escape.headD 0) bytes [], ∀ k ∈ p, k.isWildcard = false) :
    likeUtf8Bytewise device input bytes (some escape) = like device input bytes (some escape) := by
  have hany : (splitPatterns (escape.headD 0) bytes []).any (·.any (·.isWildcard)) = false := by
    simpa using h
  have hsplit : preprocessLike bytes (escape.headD 0) true =
      { preprocessLike bytes (escape.headD 0) false with hasSingleWildcard := true } := rfl
  have hmid : ∀ p ∈ (preprocessLike bytes (escape.headD 0) false).middlePatterns, ∀ k ∈ p,
      k.isWildcard = false := fun p hp => h p
    ((splitPrefix_append bytes _).2 ((splitSuffix_append bytes (escape.headD 0) _).2 hp))
  have hrun : ∀ w, runStringMatch device w .utf8Bytewise input
      (preprocessLike bytes (escape.headD 0) false) =
      runStringMatch device w .ascii input (preprocessLike bytes (escape.headD 0) true) := by
    intro w
    rw [hsplit, runStringMatch, runStringMatch, maskTables_utf8Bytewise w hmid]
  have hsingle : (preprocessLike bytes (escape.headD 0) false).hasSingleWildcard = false := hany
  unfold likeUtf8Bytewise like likeImpl
  simp only [ne_eq, not_true_eq_false, decide_false, hsingle, hrun]
  rfl

/-! ### Literals -/

def literals (l : List UInt8) : SubPattern := l.map (⟨·, false⟩)

lemma fits_literals {l s : List UInt8} : Fits fits (literals l) s ↔ s = l := by
  induction l generalizing s with
  | nil => simp [literals]
  | cons b l ih => cases s <;> simp [literals, fits, ← ih]

lemma segmentBytes_eq {q : List Utf8Char} (h : ∀ k ∈ q, k.isWildcard = false) :
    segmentBytes q = literals (encode (q.map (·.char))) := by
  induction q with
  | nil => rfl
  | cons k q ih =>
    obtain ⟨hk, hq⟩ := forall_mem_cons.1 h
    have hbytes : k.bytes = literals (code k.char) := by simp [hk, literals]
    rw [segmentBytes, flatMap_cons, ← segmentBytes, ih hq, hbytes]
    simp [literals, encode]

lemma shortest_eq_map (h : ∀ k, .cell k ∈ items → k.isWildcard = false) :
    shortest items = ((segments items).1 ++ (segments items).2.flatten).map (·.char) := by
  induction items with
  | nil => rfl
  | cons i items ih =>
    have htail := ih fun k hk => h k (mem_cons_of_mem _ hk)
    cases i with
    | cell k => simp [htail, h k mem_cons_self]
    | many => simp [htail]

lemma occur_segmentBytes {ps : List (List Utf8Char)} (h : ∀ p ∈ ps, ∀ k ∈ p, k.isWildcard = false) :
    Occur fits (ps.map segmentBytes) (encode (ps.flatten.map (·.char))) := by
  induction ps with
  | nil => trivial
  | cons p ps ih =>
    obtain ⟨hp, hps⟩ := forall_mem_cons.1 h
    refine ⟨[], encode (p.map (·.char)), _, by simp [encode], ?_, ih hps⟩
    rw [segmentBytes_eq hp, fits_literals]

/-- What is before, between and after the wildcards of a pattern, in characters, and what it is cut
into. -/
structure IsCut (e : Char) (pattern : List Char) (items : List (Item Utf8Char))
    (before between after : List Char) : Prop where
  eq_append : shortest items = before ++ between ++ after
  first : (utf8Parts e pattern items).first = literals (encode before)
  last : (utf8Parts e pattern items).last = literals (encode after)
  occur : Occur fits (utf8Parts e pattern items).middle (encode between)
  ends : ∀ s, matchesPattern Utf8Char.fits items s → ∃ t, s = before ++ t ++ after

lemma fits_map_char {q : List Utf8Char} (h : ∀ k ∈ q, k.isWildcard = false) {s : List Char}
    (hfits : Fits Utf8Char.fits q s) : s = q.map (·.char) := by
  induction hfits with
  | nil => rfl
  | @cons k c q s hk _ ih =>
    obtain ⟨hwildcard, hq⟩ := forall_mem_cons.1 h
    have hc : c = k.char := by simpa [hwildcard] using hk
    rw [hc, ih hq, map_cons]

lemma exists_isCut (hmany : .many ∈ items) (hsingle : ∀ k, .cell k ∈ items → k.isWildcard = false)
    (hends : items.getLast? = some .many → (utf8Parts e pattern items).last = []) :
    ∃ before between after, IsCut e pattern items before between after := by
  obtain ⟨ps, q, hq⟩ := (eq_nil_or_concat' (segments items).2).resolve_left fun hnil =>
    segments_snd_eq_nil.1 hnil hmany
  have hcells : ∀ k ∈ (segments items).1 ++ (segments items).2.flatten, k.isWildcard = false :=
    fun k hk => hsingle k (cell_mem_of_segments hk)
  have hlast : ∀ k ∈ q, k.isWildcard = false := fun k hk => hcells k (by simp [hq, hk])
  have hmid : ∀ p ∈ ps, ∀ k ∈ p, k.isWildcard = false := by
    intro p hp k hk
    exact hcells k (by simp only [hq, mem_append, mem_flatten]; exact .inr ⟨p, by simp [hp], hk⟩)
  have hocc := occur_filter_ne_nil.2 (occur_segmentBytes hmid)
  have hfst : (utf8Parts e pattern items).first = segmentBytes (segments items).1 :=
    first_utf8Parts hmany
  have hbytes : (segments (itemsBytes items)).2 = ps.map segmentBytes ++ [segmentBytes q] := by
    rw [segments_itemsBytes, hq]
    simp
  have hparts : (utf8Parts e pattern items).last = segmentBytes q ∧
      Occur fits (utf8Parts e pattern items).middle
        (encode (ps.flatten.map (·.char))) := by
    rw [utf8Parts, partsOf, hbytes, getLast?_concat, dropLast_concat] at hends ⊢
    dsimp only at hends ⊢
    by_cases htaken : segmentBytes q = [] ∧ EscapeBeforeLast (escapeByte e) (encode pattern)
    · have hnil : q = [] := by
        by_contra hne
        exact view_bytes_ne_nil hne (by rw [htaken.1]; rfl)
      rw [if_pos htaken] at hends ⊢
      have hemp := hends ((last_segment_eq_nil hq).1 hnil)
      refine ⟨hemp.trans htaken.1.symm, ?_⟩
      rcases eq_nil_or_concat' ((ps.map segmentBytes).filter (· ≠ [])) with hps | ⟨rs, r, hr⟩
      · rw [hps]
        trivial
      · have hmem : r ∈ (ps.map segmentBytes).filter (· ≠ []) := by rw [hr]; simp
        rw [hr] at hemp
        exact absurd hemp (by simpa using (mem_filter.1 hmem).2)
    · rw [if_neg htaken]
      exact ⟨rfl, hocc⟩
  refine ⟨(segments items).1.map (·.char), ps.flatten.map (·.char), q.map (·.char), ?_, ?_, ?_, ?_,
    fun s hs => ?_⟩
  · simp [shortest_eq_map hsingle, hq]
  · rw [hfst, segmentBytes_eq fun k hk => hcells k (mem_append_left _ hk)]
  · rw [hparts.1, segmentBytes_eq hlast]
  · exact hparts.2
  · obtain ⟨u, v, w, rfl, hu, -, hw⟩ := (matches_iff_decomposes hq).1 hs
    rw [← fits_map_char hlast hw, ← fits_map_char (fun k hk => hcells k (mem_append_left _ hk)) hu]
    exact ⟨v, rfl⟩

/-! ### What the kernel accepts -/

/-- The kernel accepts every string with the bytes that it compares at its two ends. -/
lemma IsCut.decomposes {before between after : List Char}
    (h : IsCut e pattern items before between after) {a b : List UInt8}
    (ha : Fits fits (view (utf8Parts e pattern items).first)
      (a.take (view (utf8Parts e pattern items).first).length))
    {b₁ : List UInt8} (hb : Fits fits (view (utf8Parts e pattern items).last) b) :
    (utf8Parts e pattern items).view.Accepts (a ++ encode between ++ (b₁ ++ b)) := by
  refine ⟨_, a.drop (view (utf8Parts e pattern items).first).length ++ encode between ++ b₁,
    b, ?_, ha,
    h.occur.append_left.append_right, hb⟩
  rw [← append_assoc, ← append_assoc, ← append_assoc, take_append_drop]

lemma view_literals (l : List UInt8) :
    view (literals l) = literals (l.take (stringViewLength (literals l))) := by
  rw [view, literals, literals, map_take]

/-- A prefix or suffix that is compared as a whole has no characters of several bytes. -/
lemma lt_of_view_literals_eq {s : List Char}
    (h : view (literals (encode s)) = literals (encode s)) :
    ∀ k ∈ literals (encode s), k.char < 128 := by
  intro k hk
  obtain ⟨b, hb, rfl⟩ := mem_map.1 hk
  obtain ⟨c, hc, hbc⟩ := mem_flatMap.1 hb
  suffices hlt : c.toNat < 0x80 by
    rw [code_of_lt hlt, mem_singleton] at hbc
    rw [hbc, UInt8.lt_iff_toNat_lt, toNat_escapeByte hlt]
    exact hlt
  by_contra hge
  have hall : ∀ k ∈ literals (encode s), IsFirst k.char := by
    have hcnt : stringViewLength (literals (encode s)) = (literals (encode s)).length := by
      rw [stringViewLength_eq, h]
    intro k hk
    exact (isFirst_iff _).1 (by simpa using countP_eq_length.1 hcnt k hk)
  obtain ⟨b, rest, hcode, -, hrest⟩ := synchronizes_code.eq_cons c
  have hlength : 1 < (codePointBytes c.toNat).length := by
    unfold codePointBytes
    split_ifs <;> simp
  rw [← map_toNat_code, hcode] at hlength
  obtain ⟨d, rest, rfl⟩ := exists_cons_of_ne_nil (ne_nil_of_length_pos
    (by simpa using hlength))
  refine hrest d mem_cons_self (hall ⟨d, false⟩ (mem_map_of_mem ?_))
  exact mem_flatMap.2 ⟨c, hc, by simp [hcode]⟩

/-- The kernel gives the result for every string that is long enough. -/
def IsRight (e : Char) (pattern : List Char) (items : List (Item Utf8Char)) : Prop :=
  ∀ s, (encode (shortest items)).length ≤ (encode s).length → (encode s).length < 2 ^ 31 →
    (matchesPattern Utf8Char.fits items s ↔ Decomposes fits
      (view (utf8Parts e pattern items).first) (utf8Parts e pattern items).middle
      (view (utf8Parts e pattern items).last) (encode s))

lemma encode_append (s t : List Char) : encode (s ++ t) = encode s ++ encode t :=
  flatMap_append

lemma exists_ascii_ne (b : UInt8) : ∃ x c, code x = [c] ∧ c ≠ b := by
  by_cases h : b = 0x61
  · exact ⟨'b', 0x62, by decide, by rw [h]; decide⟩
  · exact ⟨'a', 0x61, by decide, fun heq => h heq.symm⟩

lemma encode_replicate {x : Char} {c : UInt8} (hx : code x = [c]) (n : Nat) :
    encode (replicate n x) = replicate n c := by
  induction n with
  | zero => rfl
  | succ n ih => simp [replicate_succ, encode, hx] at ih ⊢; exact ih

section IsCut

variable {before between after : List Char} (h : IsCut e pattern items before between after)
  (hright : IsRight e pattern items) (hlength : (encode (shortest items)).length < 2 ^ 30)
include h hright hlength

/-- The bytes that are compared with the suffix end the shortest string. -/
lemma IsCut.exists_suffix : ∃ b₁ b, encode after = b₁ ++ b ∧
    Fits fits (view (utf8Parts e pattern items).last) b := by
  obtain ⟨u, v, w, heq, -, -, hw⟩ := (hright _ le_rfl (by omega)).1 (matches_shortest items)
  have hle : w.length ≤ (encode after).length := by
    rw [← hw.length_eq]
    exact (length_view_le _).trans (by simp [h.last, literals])
  rw [h.eq_append, encode_append] at heq
  have hsuf : w <:+ encode after :=
    suffix_of_suffix_length_le (heq.symm ▸ suffix_append _ _)
      (suffix_append (encode (before ++ between)) _) hle
  obtain ⟨b₁, hb₁⟩ := hsuf
  exact ⟨b₁, w, hb₁.symm, hw⟩

/-- A string is accepted whose end is that of the shortest string, in the bytes compared. -/
lemma IsCut.accepts {a c : List Char} {b : List UInt8}
    (ha : (encode a).take (stringViewLength (literals (encode before))) =
      (encode before).take (stringViewLength (literals (encode before))))
    (hc : b <:+ encode c) (hb : Fits fits (view (utf8Parts e pattern items).last) b)
    (hlength' : (encode (a ++ between ++ c)).length = (encode (shortest items)).length) :
    ∃ t, a ++ between ++ c = before ++ t ++ after := by
  obtain ⟨b₁, hb₁⟩ := hc
  refine h.ends _ ((hright _ hlength'.ge (by omega)).2 ?_)
  rw [encode_append, encode_append, ← hb₁]
  refine h.decomposes ?_ hb
  rw [h.first, ← stringViewLength_eq, ha, view_literals, fits_literals]

/-- A prefix of which not all bytes are compared: a string that differs from it in the last one. -/
lemma IsCut.view_first : view (literals (encode before)) = literals (encode before) := by
  by_contra hne
  rw [view_literals] at hne
  have hlt : stringViewLength (literals (encode before)) < (encode before).length := by
    by_contra hge
    exact hne (by rw [take_of_length_le (by omega)])
  obtain ⟨cs, c, rfl⟩ := (eq_nil_or_concat' before).resolve_left (by
    rintro rfl
    exact absurd hlt (Nat.not_lt_zero _))
  obtain ⟨d, hd, hcode, hdrop⟩ := exists_code_eq_dropLast c
  obtain ⟨b₁, b, hafter, hb⟩ := h.exists_suffix hright hlength
  have hother : ∀ x, encode (cs ++ [x]) = encode cs ++ code x := by simp [encode]
  have htake : ∀ x, (code x).length = (code c).length →
      (encode (cs ++ [x])).take (stringViewLength (literals (encode (cs ++ [c])))) =
        (encode cs ++ (code x).dropLast).take
          (stringViewLength (literals (encode (cs ++ [c])))) := by
    intro x hx
    have hxne : code x ≠ [] := by
      obtain ⟨b, rest, hcons, -⟩ := synchronizes_code.eq_cons x
      simp [hcons]
    rw [hother c, length_append] at hlt
    rw [← dropLast_append_of_ne_nil hxne, dropLast_eq_take, take_take, hother x,
      min_eq_left (by rw [length_append, hother c]; omega)]
  obtain ⟨t, ht⟩ := h.accepts hright hlength
    ((htake d hcode).trans (by rw [hdrop, htake c rfl])) (hafter ▸ suffix_append _ _) hb
    (by rw [h.eq_append]; simp [encode, hcode])
  simp only [append_assoc, append_cancel_left_eq, cons_append, cons.injEq] at ht
  exact hd ht.1

/-- A suffix of which not all bytes are compared: a string that ends with these bytes, after other
ones. -/
lemma IsCut.view_last : view (literals (encode after)) = literals (encode after) := by
  obtain ⟨b₁, b, hafter, hb⟩ := h.exists_suffix hright hlength
  have hview : b = (encode after).take (stringViewLength (literals (encode after))) := by
    rwa [h.last, view_literals, fits_literals] at hb
  cases b₁ with
  | nil => rw [view_literals, ← hview, hafter, nil_append]
  | cons b₀ b₁ =>
    have hhead : ∀ x ∈ b.head?, IsFirst x := by
      intro x hx
      have hx : x ∈ (encode after).head? := by
        rw [hview, head?_take] at hx
        split_ifs at hx
        · cases hx
        · exact hx
      cases after with
      | nil => cases hx
      | cons c after =>
        obtain ⟨y, rest, hcode, hy, -⟩ := synchronizes_code.eq_cons c
        simp only [encode, flatMap_cons, hcode, cons_append, head?_cons,
          Option.mem_def, Option.some.injEq] at hx
        exact hx ▸ hy
    obtain ⟨c₁, c₂, rfl, -, hc₂⟩ := synchronizes_code.exists_of_flatMap_eq_append hafter hhead
    rw [← encode] at hc₂
    obtain ⟨x, y, hx, hy⟩ := exists_ascii_ne b₀
    have henc : encode (.replicate (b₁.length + 1) x ++ c₂) =
        .replicate (b₁.length + 1) y ++ b := by
      rw [encode_append, encode_replicate hx, hc₂]
    obtain ⟨t, ht⟩ := h.accepts hright hlength
      rfl (henc ▸ suffix_append _ _) hb (by
        rw [h.eq_append, encode_append, encode_append _ (c₁ ++ c₂), hafter, henc]
        simp [Nat.add_right_comm])
    have hbytes := congrArg encode ht
    rw [encode_append, encode_append _ (c₁ ++ c₂), hafter, henc] at hbytes
    have hend := (append_inj' hbytes (by simp [Nat.add_right_comm])).2
    rw [replicate_succ, cons_append, cons_append, cons.injEq] at hend
    exact absurd hend.1 hy

end IsCut

lemma last_eq_nil_of_isRight (hright : IsRight e pattern items)
    (hlength : (encode (shortest items)).length < 2 ^ 30)
    (hle : (utf8Parts e pattern items).last.length ≤ (encode (shortest items)).length)
    (hsingle : ∀ k, .cell k ∈ items → k.isWildcard = false) (hend : items.getLast? = some .many) :
    (utf8Parts e pattern items).last = [] := by
  have hmany := mem_of_getLast? hend
  by_contra hne
  obtain ⟨q, hq, hlast⟩ := (last_utf8Parts hmany).resolve_left hne
  have hcells : ∀ k ∈ q, k.isWildcard = false := fun k hk => hsingle k
    (cell_mem_of_segments (mem_append_right _ (mem_flatten.2 ⟨q, hq, hk⟩)))
  have hview : view (utf8Parts e pattern items).last ≠ [] := by
    rw [hlast] at hne ⊢
    exact view_bytes_ne_nil fun hnil => hne (by rw [hnil]; rfl)
  obtain ⟨b, rest, hliterals⟩ : ∃ b rest, view (utf8Parts e pattern items).last =
      literals (b :: rest) := by
    rw [hlast, segmentBytes_eq hcells, view_literals] at hview ⊢
    obtain ⟨b, rest, hcons⟩ := exists_cons_of_ne_nil
      (fun hnil => hview (congrArg literals hnil) : take _ _ ≠ [])
    exact ⟨b, rest, congrArg literals hcons⟩
  have hrest := (congrArg length hliterals).symm.trans_le (length_view_le _)
  rw [literals, length_map] at hrest
  obtain ⟨x, y, hx, hy⟩ := exists_ascii_ne b
  have henc : encode (shortest items ++ .replicate (rest.length + 1) x) =
      encode (shortest items) ++ .replicate (rest.length + 1) y := by
    rw [encode_append, encode_replicate hx]
  have hmatch : matchesPattern Utf8Char.fits items
      (shortest items ++ .replicate (rest.length + 1) x) := by
    obtain ⟨p, rfl⟩ := getLast?_eq_some_iff.1 hend
    rw [shortest_append]
    exact matchesPattern_append.2 ⟨_, _, rfl, by simpa using matches_shortest p,
      matchesPattern_many.2 ⟨_, [], (append_nil _).symm, rfl⟩⟩
  obtain ⟨u, v, w, heq, -, -, hw⟩ := (hright _ (by simp [henc]) (by
    simp only [henc, length_append, length_replicate]
    simp only [length_cons] at hrest
    omega)).1 hmatch
  rw [hliterals, fits_literals] at hw
  rw [henc, hw] at heq
  have hend := (append_inj' heq (by simp)).2
  rw [replicate_succ, cons.injEq] at hend
  exact hy hend.1

/-! ### The strings that are long enough -/

lemma isWildcard_of_mem_split (h : Parses (escapeByte e) (encode pattern) (itemsBytes items))
    (hsingle : ∀ k, .cell k ∈ items → k.isWildcard = false) {p : SubPattern}
    (hp : p ∈ splitPatterns (escapeByte e) (encode pattern) []) :
    ∀ k ∈ p, k.isWildcard = false := by
  intro k hk
  have hmem : k ∈ (segments (itemsBytes items)).1 ++ (segments (itemsBytes items)).2.flatten := by
    rw [← h.flatten_splitPatterns]
    exact mem_flatten.2 ⟨p, hp, hk⟩
  have hcell := cell_mem_of_segments hmem
  clear h hmem hp hk
  induction items with
  | nil => simp at hcell
  | cons i items ih =>
    have htail := ih fun k hk => hsingle k (mem_cons_of_mem _ hk)
    cases i with
    | cell c =>
      have hc := hsingle c mem_cons_self
      simp only [itemsBytes, Utf8Char.bytes, hc, mem_append, mem_map] at hcell
      rcases hcell with ⟨_, hx, heq⟩ | hcell
      · cases heq
        obtain ⟨b, -, rfl⟩ := mem_map.1 hx
        rfl
      · exact htail hcell
    | many => exact htail (by simpa using hcell)

lemma spaced_of_isWildcard (hsingle : ∀ k, .cell k ∈ items → k.isWildcard = false) (g : Gap)
    (hg : g = .empty ∨ g = .many) : spaced g items := by
  induction items generalizing g with
  | nil => rcases hg with rfl | rfl <;> rfl
  | cons i items ih =>
    have htail := ih fun k hk => hsingle k (mem_cons_of_mem _ hk)
    cases i with
    | cell c =>
      have hc := hsingle c mem_cons_self
      rcases hg with rfl | rfl <;> simp [spaced, Gap.next, hc, htail]
    | many => rcases hg with rfl | rfl <;> simp [spaced, Gap.next, htail]

/-- The results for the strings with as many bytes as the literals of the pattern. -/
def RightOnLong (items : List (Item Utf8Char)) (strings : List (Option (List Char)))
    (cells : List Cell) : Prop :=
  ∀ (i : Nat) s, strings[i]? = some (some s) →
    (encode (shortest items)).length ≤ (encode s).length →
      cells[i]? = some (.value (matchesPattern Utf8Char.fits items s))

/-- On the strings with as many bytes as the literals of the pattern, `like_utf8_bytewise` is LIKE
if and only if the pattern is left to the library function, or the mask tables fit into shared
memory, no part is taken for a suffix, and the prefix and suffix are of characters with one byte. -/
theorem likeUtf8Bytewise_eq_iff (hcudf : device.CudfLikeIsUtf8)
    (hescape : IsEscape escape e pattern)
    (hparse : parseUtf8 e pattern = some items) (hmany : .many ∈ items)
    (hsingle : ∀ k, .cell k ∈ items → k.isWildcard = false)
    (hlength : (encode pattern).length < 2 ^ 30) :
    (∀ input strings, StringsColumn.Encodes input strings → ∃ cells,
      likeUtf8Bytewise device input (encode pattern) (some escape) = .ok cells ∧
        RightOnLong items strings cells) ↔
    (∃ m ∈ (utf8Parts e pattern items).middle, 64 < m.length) ∨
      (utf8Parts e pattern items).FitsShared device ∧
        (items.getLast? = some .many → (utf8Parts e pattern items).last = []) ∧
        ∀ k ∈ (utf8Parts e pattern items).first ++ (utf8Parts e pattern items).last,
          k.char < 128 := by
  have h := Parses.of_parseUtf8 hescape.1 hparse
  have hlike : ∀ input, likeUtf8Bytewise device input (encode pattern) (some escape) =
      like device input (encode pattern) (some escape) := fun input => likeUtf8Bytewise_eq_like (by
    rw [hescape.headD_eq]
    exact fun p hp => isWildcard_of_mem_split h hsingle hp)
  have hshortest := length_shortest_le h
  have hparts := length_parts h
  have hviews : (view (utf8Parts e pattern items).first).length +
      (view (utf8Parts e pattern items).last).length ≤ (encode (shortest items)).length := by
    have hfirst := length_view_le (utf8Parts e pattern items).first
    have hlast := length_view_le (utf8Parts e pattern items).last
    omega
  by_cases hshort : ∀ m ∈ (utf8Parts e pattern items).middle, m.length ≤ 64
  · have hlong : ¬ ∃ m ∈ (utf8Parts e pattern items).middle, 64 < m.length := by simpa using hshort
    rw [or_iff_right hlong]
    constructor
    · intro hall
      have hone : ∀ s, (encode (shortest items)).length ≤ (encode s).length →
          (encode s).length < 2 ^ 31 → (utf8Parts e pattern items).FitsShared device ∧
            (matchesPattern Utf8Char.fits items s ↔
              (utf8Parts e pattern items).view.Accepts (encode s)) := by
        intro s hle hs
        obtain ⟨cells, hcells, hvalue⟩ := hall _ _ (encodes_singleton hs)
        rw [hlike] at hcells
        have hrows : (StringsColumn.singleton (encode s) hs).rows ≠ [] := cons_ne_nil _ _
        have hmap := hcells.symm.trans
          (h.like_eq_map hshort hescape.length_le hescape.headD_eq hrows)
        obtain ⟨c, rfl⟩ := length_eq_one_iff.1 (congrArg length (Except.ok.inj hmap))
        obtain rfl := Option.some.inj (hvalue 0 s rfl hle)
        obtain ⟨hfits, hkernel⟩ :=
          h.kernel_of_like_eq hshort hescape.length_le hescape.headD_eq hcells
        have hmem : some ⟨0, (encode s).length⟩ ∈ (StringsColumn.singleton (encode s) hs).rows :=
          mem_singleton.2 rfl
        obtain ⟨result, hresult, hiff⟩ := h.kernel_of_le hshort hmem (hviews.trans hle)
        rw [string_singleton] at hiff
        exact ⟨hfits, by rw [← hiff, Option.some.inj (hresult.symm.trans hkernel)]⟩
      have hright : IsRight e pattern items := fun s hle hs => (hone s hle hs).2
      have hends := last_eq_nil_of_isRight hright (by omega) (by omega) hsingle
      obtain ⟨before, between, after, hcut⟩ := exists_isCut hmany hsingle hends
      refine ⟨(hone (shortest items) le_rfl (by omega)).1, hends, ?_⟩
      rw [hcut.first, hcut.last, forall_mem_append]
      exact ⟨lt_of_view_literals_eq (hcut.view_first hright (by omega)),
        lt_of_view_literals_eq (hcut.view_last hright (by omega))⟩
    · rintro ⟨hfits, hends, hascii⟩ input strings hinput
      rw [forall_mem_append] at hascii
      have hsame : SameMatches items :=
        sameMatches_of_spaced (spaced_of_isWildcard hsingle _ (.inl rfl))
      by_cases hrows : input.rows = []
      · refine ⟨[], (hlike input).trans (like_of_rows_eq_nil hescape.length_le hrows),
          fun i s hs _ => ?_⟩
        rw [StringsColumn.Encodes, hrows] at hinput
        rw [map_eq_nil_iff.1 hinput.symm] at hs
        cases hs
      · refine ⟨_, (hlike input).trans
          (h.like_eq_map hshort hescape.length_le hescape.headD_eq hrows), fun i s hs hle => ?_⟩
        obtain ⟨r, hr, hstring⟩ : ∃ r, input.rows[i]? = some (some r) ∧
            input.string r = encode s := by
          have hget := congrArg (·[i]?) hinput
          simpa [hs] using hget
        refine (getElem?_map_ofThread hr _).2 ?_
        have hmem := mem_of_getElem? hr
        have hsize : (encode s).length = r.sizeBytes := hstring ▸ length_string hmem
        obtain ⟨result, hresult, hiff⟩ := h.kernel_of_le hshort hmem (hsize ▸ hviews.trans hle)
        rw [if_pos hfits, hresult, Option.some.injEq, Bool.eq_iff_iff, hiff, hstring, ← hsame,
          matches_iff_parts (many_mem_itemsBytes.2 hmany)
            fun hlast => hends (getLast?_itemsBytes.1 hlast), Parts.view,
          view_of_ascii hascii.1, view_of_ascii hascii.2]
  · have hlong : ∃ m ∈ (utf8Parts e pattern items).middle, 64 < m.length := by simpa using hshort
    refine iff_of_true (fun input strings hinput => ⟨_, (hlike input).trans
      (like_of_long hcudf hescape hparse hlong hinput), fun i s hs _ => ?_⟩) (.inl hlong)
    rw [likeCells, getElem?_map, hs]
    rfl

/-- `'aéb' LIKE 'a%b'`. -/
theorem likeUtf8Bytewise_accented : ∃ cells,
    likeUtf8Bytewise (.utf8 49152) accented (encode ['a', '%', 'b']) (some [0x21]) = .ok cells ∧
      RightOnLong [.cell ⟨'a', false⟩, .many, .cell ⟨'b', false⟩] [some ['a', 'é', 'b']] cells :=
  (likeUtf8Bytewise_eq_iff (Device.cudfLikeIsUtf8_utf8 49152)
    (show IsEscape [0x21] '!' ['a', '%', 'b'] from ⟨by decide, .inl rfl⟩) rfl (by decide)
      (by simp) (by decide)).2
      (.inr ⟨by decide +kernel, by decide, by decide +kernel⟩) accented _ (encodes_singleton _)

/-- Only the first byte of `é` is compared, so `'ê' LIKE 'é%'` is TRUE. A `%` after an escaped
escape character is taken for an escaped one, so `'a!b' LIKE '%a!!%' ESCAPE '!'` is FALSE. -/
theorem likeUtf8Bytewise_circumflex :
    likeUtf8Bytewise (.utf8 49152) (.singleton (encode ['ê']) (by decide)) (encode ['é', '%'])
        (some [0x21]) = .ok [.value true] ∧
      (parseUtf8 '!' ['é', '%']).map (matchesPattern Utf8Char.fits · ['ê']) = some false ∧
    likeUtf8Bytewise (.utf8 49152) (.singleton (encode ['a', '!', 'b']) (by decide))
        (encode ['%', 'a', '!', '!', '%']) (some [0x21]) = .ok [.value false] ∧
      (parseUtf8 '!' ['%', 'a', '!', '!', '%']).map
        (matchesPattern Utf8Char.fits · ['a', '!', 'b']) =
        some true :=
  ⟨by decide +kernel, by decide, by decide +kernel, by decide⟩

end Gqe.Like
