import Gqe.Lib.UniqueKey
import Gqe.Uniqueness.Basic

/-!
# Keys of tables

What it means that a set of columns identifies at most one row of a table, and how keys are carried
through operators that output columns of their input.
-/

namespace Gqe.Uniqueness

open UniqueKey List RelationProperties

variable {V : Type*}

/-! ### Keys -/

inductive NullEquality where
  | equal | unequal
  deriving DecidableEq

def ValuesAgree (nulls : NullEquality) (a b : Option V) : Prop :=
  a = b ∧ (nulls = .unequal → a ≠ none)

/-- Two rows have the same values in the columns of a key. -/
def Agree (nulls : NullEquality) (key : List Nat) (r s : Row V) : Prop :=
  ∀ c ∈ key, ValuesAgree nulls (r.col c) (s.col c)

/-- A list of columns of the table that identifies at most one of its rows. -/
structure IsKey (nulls : NullEquality) (t : Table V) (key : List Nat) : Prop where
  lt_numColumns : ∀ c ∈ key, c < t.numColumns
  unique : IsUnique (Agree nulls key) t.rows

/-- All recorded keys are keys of the table. -/
def RelationProperties.Hold (nulls : NullEquality) (p : RelationProperties) (t : Table V) : Prop :=
  ∀ key ∈ p.uniqueKeys, IsKey nulls t key

section
variable [DecidableEq V]

instance (nulls : NullEquality) (a b : Option V) : Decidable (ValuesAgree nulls a b) :=
  inferInstanceAs (Decidable (_ ∧ (_ → _)))

instance (nulls : NullEquality) (key : List Nat) : DecidableRel (Agree (V := V) nulls key) :=
  fun _ _ => inferInstanceAs (Decidable (∀ c ∈ key, _))

instance (nulls : NullEquality) (t : Table V) (key : List Nat) : Decidable (IsKey nulls t key) :=
  decidable_of_iff ((∀ c ∈ key, c < t.numColumns) ∧ IsUnique (Agree nulls key) t.rows)
    ⟨fun h => ⟨h.1, h.2⟩, fun h => ⟨h.1, h.2⟩⟩

instance (nulls : NullEquality) (p : RelationProperties) (t : Table V) :
    Decidable (p.Hold nulls t) :=
  inferInstanceAs (Decidable (∀ key ∈ p.uniqueKeys, _))

end

variable {nulls : NullEquality} {key : List Nat} {r s : Row V}

lemma ValuesAgree.symm {a b : Option V} (h : ValuesAgree nulls a b) : ValuesAgree nulls b a :=
  ⟨h.1.symm, h.1 ▸ h.2⟩

lemma ValuesAgree.trans {a b c : Option V} (h : ValuesAgree nulls a b)
    (h' : ValuesAgree nulls b c) :
    ValuesAgree nulls a c :=
  ⟨h.1.trans h'.1, h.2⟩

lemma Agree.symm (r s : Row V) (h : Agree nulls key r s) : Agree nulls key s r :=
  fun c hc => (h c hc).symm

lemma Agree.mono {key' : List Nat} (hsub : ∀ c ∈ key', c ∈ key) (h : Agree nulls key r s) :
    Agree nulls key' r s :=
  fun c hc => h c (hsub c hc)

lemma Agree.of_unequal (h : Agree .unequal key r s) : Agree nulls key r s :=
  fun c hc => ⟨(h c hc).1, fun _ => (h c hc).2 rfl⟩

variable {p : RelationProperties} {t : Table V}

lemma RelationProperties.Hold.pairwise (h : p.Hold nulls t) :
    t.rows.Pairwise fun r s => ∀ key ∈ p.uniqueKeys, ¬ Agree nulls key r s :=
  pairwise_iff_forall_sublist.2 fun hsub key hkey =>
    pairwise_iff_forall_sublist.1 (h key hkey).unique hsub

lemma IsKey.of_subset {key' : List Nat} (h : IsKey nulls t key)
    (hsub : ∀ c ∈ key, c ∈ key') (hlt : ∀ c ∈ key', c < t.numColumns) : IsKey nulls t key' :=
  ⟨hlt, h.unique.mono fun _ _ => Agree.mono hsub⟩

@[simp] lemma isKey_sortKey : IsKey nulls t (sortKey key) ↔ IsKey nulls t key :=
  ⟨fun h => h.of_subset (by simp) (by simpa using h.lt_numColumns),
    fun h => h.of_subset (by simp) (by simpa using h.lt_numColumns)⟩

/-! ### Recorded keys -/

lemma mem_addUniqueKey {k : List Nat} :
    key ∈ (p.addUniqueKey k).uniqueKeys ↔ key ∈ p.uniqueKeys ∨ k ≠ [] ∧ key = sortKey k := by
  unfold addUniqueKey
  split_ifs with h
  · rcases h with rfl | h
    · simp
    · refine ⟨.inl, ?_⟩
      rintro (hk | ⟨-, rfl⟩)
      · exact hk
      · exact h
  · rw [not_or] at h
    simp [h.1]

/-- The recorded keys are the nonempty ones that were added, in sorted form. -/
lemma mem_ofKeys {keys : List (List Nat)} :
    key ∈ (ofKeys keys).uniqueKeys ↔ ∃ k ∈ keys, k ≠ [] ∧ key = sortKey k := by
  have hfold : ∀ p : RelationProperties, key ∈ (keys.foldl .addUniqueKey p).uniqueKeys ↔
      key ∈ p.uniqueKeys ∨ ∃ k ∈ keys, k ≠ [] ∧ key = sortKey k := by
    induction keys with
    | nil => simp
    | cons k keys ih =>
      intro p
      simp [ih, mem_addUniqueKey, or_assoc]
  rw [ofKeys, hfold]
  simp [EmptyCollection.emptyCollection]

lemma hold_ofKeys {keys : List (List Nat)} :
    (ofKeys keys).Hold nulls t ↔ ∀ k ∈ keys, k ≠ [] → IsKey nulls t k := by
  simp only [RelationProperties.Hold, mem_ofKeys]
  constructor
  · exact fun h k hk hne => isKey_sortKey.1 (h _ ⟨k, hk, hne, rfl⟩)
  · rintro h _ ⟨k, hk, hne, rfl⟩
    exact isKey_sortKey.2 (h k hk hne)

lemma sortKey_of_mem (h : key ∈ p.uniqueKeys) : sortKey key = key := by
  have hlt := p.pairwise_lt key h
  rw [sortKey, (hlt.imp le_of_lt).insertionSort_eq]
  exact dedup_eq_self.2 (hlt.imp ne_of_lt)

lemma mem_uniqueColumns {c : Nat} : c ∈ p.uniqueColumns ↔ [c] ∈ p.uniqueKeys := by
  simp only [uniqueColumns, mem_filterMap]
  constructor
  · rintro ⟨key, hkey, h⟩
    split at h
    · simp only [Option.some.injEq] at h
      rwa [← h]
    · simp at h
  · exact fun h => ⟨[c], h, rfl⟩

/-! ### Renumbered keys -/

/-- A choice of one output for each column of a key. -/
abbrev Chooses (columns : List (Option Nat)) (key out : List Nat) : Prop :=
  List.Forall₂ (fun o c => columns[o]? = some (some c)) out key

variable {columns : List (Option Nat)}

lemma mem_inToOuts {c o : Nat} : o ∈ inToOuts columns c ↔ columns[o]? = some (some c) := by
  simp [inToOuts, mem_zipIdx_iff_getElem?]

variable {out : List Nat}

/-- The rule emits exactly the choices of one output for each column. -/
lemma mem_emitRemappedKeys :
    out ∈ emitRemappedKeys key (inToOuts columns) ↔ Chooses columns key out := by
  have hforall : List.Forall₂ (· ∈ ·) out (key.map (inToOuts columns)) ↔
      Chooses columns key out := by
    simp [mem_inToOuts]
  rw [← hforall, ← Odometer.mem_product, emitRemappedKeys]
  split_ifs with h
  · rw [Odometer.run_start h]
  · exact iff_of_false (by simp) fun hout => h (Odometer.ne_nil_of_mem_product hout)

lemma mem_ofKeys_uniqueKeys : key ∈ (ofKeys p.uniqueKeys).uniqueKeys ↔ key ∈ p.uniqueKeys := by
  rw [mem_ofKeys]
  constructor
  · rintro ⟨k, hk, -, rfl⟩
    rwa [sortKey_of_mem hk]
  · exact fun h => ⟨key, h, p.ne_nil key h, (sortKey_of_mem h).symm⟩

lemma Chooses.lt_length
    (h : Chooses columns key out) {o : Nat} (ho : o ∈ out) : o < columns.length := by
  induction h with
  | nil => simp at ho
  | cons hc _ ih =>
    rcases mem_cons.1 ho with rfl | ho
    · exact (List.getElem?_eq_some_iff.1 hc).1
    · exact ih ho

lemma Chooses.mem {p out : List Nat} (h : Chooses (p.map some) key out) : ∀ c ∈ key, c ∈ p := by
  induction h with
  | nil => simp
  | cons hc _ ih => exact forall_mem_cons.2 ⟨mem_of_getElem? (by simpa using hc), ih⟩

lemma Chooses.ne_nil (h : Chooses columns key out) (hkey : key ≠ []) : out ≠ [] := by
  rintro rfl
  exact hkey (List.forall₂_nil_left_iff.1 h)

lemma mem_ofKeys_remapKeys : key ∈ (ofKeys (remapKeys columns p)).uniqueKeys ↔
      ∃ k ∈ p.uniqueKeys, ∃ out, Chooses columns k out ∧ key = sortKey out := by
  simp only [mem_ofKeys, remapKeys, mem_flatMap, mem_emitRemappedKeys]
  constructor
  · rintro ⟨out, ⟨k, hk, hout⟩, -, rfl⟩
    exact ⟨k, hk, out, hout, rfl⟩
  · rintro ⟨k, hk, out, hout, rfl⟩
    exact ⟨out, ⟨k, hk, hout⟩, hout.ne_nil (p.ne_nil k hk), rfl⟩

/-- A row has the columns of another one as its outputs. -/
def Outputs (columns : List (Option Nat)) (r out : Row V) : Prop :=
  ∀ o c, columns[o]? = some (some c) → out.col o = r.col c

/-- Outputs agree on a choice for a key exactly if the rows agree on the key. -/
lemma agree_iff_of_chooses (h : Chooses columns key out) {r' s' : Row V} (hr : Outputs columns r r')
    (hs : Outputs columns s s') : Agree nulls out r' s' ↔ Agree nulls key r s := by
  induction h with
  | nil => simp [Agree]
  | @cons o c out key hc _ ih =>
    simp only [Agree, forall_mem_cons] at ih ⊢
    rw [hr o c hc, hs o c hc, ih]

lemma exists_chooses {p : List Nat} (h : ∀ c ∈ key, c ∈ p) :
    ∃ out, Chooses (p.map some) key out := by
  induction key with
  | nil => exact ⟨[], .nil⟩
  | cons c key ih =>
    obtain ⟨out, hout⟩ := ih fun c hc => h c (by simp [hc])
    obtain ⟨o, ho⟩ := List.getElem?_of_mem (h c (by simp))
    exact ⟨o :: out, .cons (by simp [ho]) hout⟩

lemma outputs_select (r : Row V) (indices : List Nat) :
    Outputs (indices.map some) r (r.select indices) := by
  intro o c hc
  have hc : indices[o]? = some c := by simpa using hc
  simp [Row.select, Row.col, hc]

lemma outputs_project [LinearOrder V] (C : Cudf V) (τ : Nat → DataType) (es : List (Expr V))
    (r : Row V) : Outputs (es.map columnIdx?) r (es.map (·.eval C τ r)) := by
  intro o c hc
  obtain ⟨e, he, hec⟩ : ∃ e, es[o]? = some e ∧ columnIdx? e = some c := by simpa using hc
  cases e with
  | columnReference i =>
    obtain rfl : i = c := by simpa [columnIdx?] using hec
    simp [Row.col, he]
  | _ => simp [columnIdx?] at hec

/-! ### Keys of built tables -/

lemma isKey_build {ι : Type*} {types : List DataType} {items : List ι} {row : ι → Row V}
    (hlen : ∀ i ∈ items, (row i).length = types.length) {agree : ι → ι → Prop}
    (hitems : IsUnique agree items) (hlt : ∀ c ∈ key, c < types.length)
    (hagree : ∀ i ∈ items, ∀ j ∈ items, Agree nulls key (row i) (row j) → agree i j) :
    IsKey nulls (.build types items row hlen) key := by
  refine ⟨hlt, ?_⟩
  unfold Table.build
  split_ifs
  · exact .nil
  · exact hitems.map hagree

/-- The keys of a table that has outputs of the rows of another one. -/
lemma isKey_build_of_chooses {types : List DataType} {rows : List (Row V)} {row : Row V → Row V}
    (hlen : ∀ r ∈ rows, (row r).length = types.length) (hrows : IsUnique (Agree nulls key) rows)
    (hout : Chooses columns key out) (htys : columns.length = types.length)
    (hrow : ∀ r, Outputs columns r (row r)) : IsKey nulls (.build types rows row hlen) out :=
  isKey_build hlen hrows (fun _ hc => htys ▸ hout.lt_length hc) fun r _ s _ =>
    (agree_iff_of_chooses hout (hrow r) (hrow s)).1

lemma isKey_materialize {τ : Nat → DataType} {rows : List (Row V)} {p out : List Nat}
    (hrows : IsUnique (Agree nulls key) rows) (hout : Chooses (p.map some) key out) :
    IsKey nulls (.materialize τ rows p) out :=
  isKey_build_of_chooses (by simp) hrows hout (by simp) fun r => outputs_select r p

end Gqe.Uniqueness
