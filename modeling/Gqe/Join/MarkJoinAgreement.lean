import Gqe.Join.MarkJoinCorrectness

/-!
# Joins with and without a mark join

A mark join gives the rows of the join without it if and only if there is an equality in the
condition, no NULL matches by the data under it or fails to match for it, and no floating-point
number with a match is different from itself.
-/

namespace Gqe.Join

open Fallible List BroadcastJoin JoinKeys

variable {V : Type} [LinearOrder V]

def TaskResult.rows : TaskResult V → List (Row V)
  | .table t => t.rows
  | .positions _ => []

/-- Where the second computation returns, the first one returns the same rows. -/
def Agrees (on off : Except Failure (List (TaskResult V))) : Prop :=
  ∀ results, off = .ok results →
    ∃ results', on = .ok results' ∧ (results'.flatMap (·.rows)).Perm (results.flatMap (·.rows))

def BroadcastJoin.withProjection (relation : BroadcastJoin V) (projectionIndices : List Nat) :
    BroadcastJoin V :=
  { relation with projectionIndices := projectionIndices }

/-- The join gives the same rows with and without a mark join, whichever columns it has. -/
def BroadcastJoin.MarkJoinAgrees (M : MarkJoins V) (numRanks : Nat) (payloads : Payloads V)
    (left right : Partitions V) (relation : BroadcastJoin V) : Prop :=
  ∀ projectionIndices, (∀ c ∈ projectionIndices, c < left.types.length) → Agrees
      ((relation.withProjection projectionIndices).execute M true numRanks payloads left right)
      ((relation.withProjection projectionIndices).execute M false numRanks payloads left right)

variable {M : MarkJoins V} {keys : JoinKeys V} {relation : BroadcastJoin V}
  {left right : Partitions V} {numRanks : Nat} {payloads : Payloads V}

omit [LinearOrder V] in
lemma BroadcastJoin.IsSupported.withProjection (h : relation.IsSupported left right keys)
    (hjoin : relation.joinType = .leftSemi ∨ relation.joinType = .leftAnti)
    {projectionIndices : List Nat} (hproj : ∀ c ∈ projectionIndices, c < left.types.length) :
    (relation.withProjection projectionIndices).IsSupported left right keys where
  parse := h.parse
  keys := h.keys
  joinType := h.joinType
  perfectHashing := h.perfectHashing
  projection := by
    have htys : joinTypes relation.joinType left.whole right.whole = left.types := by
      rcases hjoin with hjoin | hjoin <;> rw [hjoin] <;> rfl
    intro c hc
    exact (congrArg length htys) ▸ hproj c hc

/-- Without an equality there is no null equality to build the hash map with. -/
lemma runMarkJoin_eq_error (h : relation.IsSupported left right keys)
    (hnulls : keys.compareNulls = none) (hright : keys.FindRightTypes left.types right.types)
    (hkeys : ∀ r ∈ right.parts, keys.AreEvaluated M.expressions left.whole r) :
    relation.runMarkJoin M numRanks payloads left right =
      .error (.throws "Invalid access of uninitialized null equality policy") := by
  obtain ⟨part, parts, hparts⟩ := exists_cons_of_ne_nil right.nonempty
  have hmem : part ∈ right.parts := hparts ▸ mem_cons_self
  have htys : part.types = right.types := right.types_eq part hmem
  obtain ⟨evaluated, hadd, hev⟩ := addCondition_eq_ok h.parse (htys ▸ hright) (hkeys part hmem)
  simp [runMarkJoin, hparts, runMarkJoinTasks, markJoinTask, hadd, hev.condition, getCompareNulls,
    hnulls]

omit [LinearOrder V] in
lemma map_select_range {t : Table V} {rows : List (Row V)} (h : ∀ r ∈ rows, r ∈ t.rows) :
    rows.map (·.select (.range t.numColumns)) = rows := by
  nth_rewrite 2 [← map_id rows]
  apply map_congr_left
  intro r hr
  have hlen : r.length = t.numColumns := t.length_row r (h r hr)
  rw [← hlen, select_range, id]

/-- With all columns, and so with any, the rows are the same if the same positions are chosen. -/
lemma forall_projection_perm_iff {t : Table V} {τ τ' : Nat → DataType} {q : Nat → Bool}
    {p : Row V → Bool} :
    (∀ projectionIndices : List Nat, (∀ c ∈ projectionIndices, c < t.numColumns) →
      (Table.materialize τ (((range t.numRows).filter q).map (t.rows.getD · []))
        projectionIndices).rows.Perm
          (Table.materialize τ' (t.rows.filter p) projectionIndices).rows) ↔
    ∀ i < t.numRows, q i = p (t.rows.getD i []) := by
  rw [Table.numRows, ← ListJoin.perm_map_getD_filter_iff]
  constructor
  · intro h
    have hall := h (.range t.numColumns) fun c hc => mem_range.1 hc
    by_cases hemp : range t.numColumns = []
    · have htys : t.types = [] := length_eq_zero_iff.1 (range_eq_nil.1 hemp)
      simp [t.rows_of_no_columns htys]
    · rw [rows_materialize_eq, rows_materialize_eq, if_neg hemp, if_neg hemp,
        map_select_range, map_select_range] at hall
      · exact hall
      · exact fun r hr => mem_of_mem_filter hr
      · intro r hr
        obtain ⟨i, hi, rfl⟩ := mem_map.1 hr
        exact getD_mem [] (mem_range.1 (mem_of_mem_filter hi))
  · intro h projectionIndices _
    exact rows_materialize_perm _ _ h _

section Agreement

variable (h : relation.IsSupported left right keys) (hpolicy : relation.policy = .left)
  (hjoin : relation.joinType = .leftSemi ∨ relation.joinType = .leftAnti)
  (hright : keys.FindRightTypes left.types right.types)
  (hkeys : ∀ r ∈ right.parts, keys.AreEvaluated M.expressions left.whole r)

include hpolicy hjoin in
lemma execute_true : relation.execute M true numRanks payloads left right =
    relation.runMarkJoin M numRanks payloads left right := by
  have hseparate : relation.separateMaterialization = true := by
    rcases hjoin with hjoin | hjoin <;> simp [separateMaterialization, hjoin]
  simp [execute, hpolicy, hseparate]

include h hpolicy hjoin hright hkeys in
lemma execute_false (numRanks : Nat) (payloads : Payloads V) : ∃ t : Table V,
    relation.execute M false numRanks payloads left right = .ok [.table t] ∧
      t.rows = (Table.materialize left.whole.typeOf (left.whole.rows.filter fun l =>
        keeps relation.joinType (right.whole.rows.any
          (keys.holds M.toCudfJoins left.types right.types l)))
            relation.projectionIndices).rows := by
  obtain ⟨t, hrun, ht⟩ := run_left_semi_eq_ok h hpolicy hjoin hright hkeys
  refine ⟨t, by simpa [execute] using hrun, ?_⟩
  rw [ht, joinBy, joinRowsBy_eq_filter _ _ _ hjoin, rows_materialize_eq, rows_materialize_eq]
  rfl

include h hpolicy hjoin hright hkeys in
lemma agrees_iff (hranks : 0 < numRanks) (hnulls : keys.compareNulls ≠ none) :
    Agrees (relation.execute M true numRanks payloads left right)
      (relation.execute M false numRanks payloads left right) ↔
    (Table.materialize left.whole.typeOf (((range left.whole.numRows).filter fun i =>
        keeps relation.joinType (isMarked M keys numRanks payloads left right i)).map
          (left.whole.rows.getD · [])) relation.projectionIndices).rows.Perm
      (Table.materialize left.whole.typeOf (left.whole.rows.filter fun l =>
        keeps relation.joinType (right.whole.rows.any
          (keys.holds M.toCudfJoins left.types right.types l)))
            relation.projectionIndices).rows := by
  obtain ⟨t, hoff, ht⟩ := execute_false h hpolicy hjoin hright hkeys numRanks payloads
  rw [execute_true hpolicy hjoin, runMarkJoin_eq_ok h hjoin hranks hnulls hright hkeys, hoff, ← ht]
  simp [Agrees, TaskResult.rows]

end Agreement

/-- A mark join agrees with the join without it if there is an equality, and exactly the rows with a
match are marked. -/
lemma markJoinAgrees_iff (h : relation.IsSupported left right keys)
    (hright : keys.FindRightTypes left.types right.types) (hpolicy : relation.policy = .left)
    (hjoin : relation.joinType = .leftSemi ∨ relation.joinType = .leftAnti) (hranks : 0 < numRanks)
    (hoff : ∃ results, relation.execute M false numRanks payloads left right = .ok results) :
    relation.MarkJoinAgrees M numRanks payloads left right ↔ keys.compareNulls ≠ none ∧
      ∀ i < left.whole.numRows, isMarked M keys numRanks payloads left right i =
        right.whole.rows.any
          (keys.holds M.toCudfJoins left.types right.types (left.whole.rows.getD i [])) := by
  have hkeys : ∀ r ∈ right.parts, keys.AreEvaluated M.expressions left.whole r := by
    obtain ⟨results, hoff⟩ := hoff
    have hrun : relation.run M.toCudfJoins left right = .ok results := by
      simpa [execute] using hoff
    have hkeys := areEvaluated_of_run h hrun
    unfold taskTables at hkeys
    rw [hpolicy] at hkeys
    exact forall_mem_map.1 hkeys
  by_cases hnulls : keys.compareNulls = none
  · refine iff_of_false ?_ fun hcond => hcond.1 hnulls
    intro hagrees
    have hemp : ∀ c ∈ ([] : List Nat), c < left.types.length := by simp
    have h' := h.withProjection hjoin hemp
    obtain ⟨t, hoff, -⟩ := execute_false h' hpolicy hjoin hright hkeys numRanks payloads
    obtain ⟨results, hon, -⟩ := hagrees [] hemp _ hoff
    rw [execute_true (by exact hpolicy) (by exact hjoin),
      runMarkJoin_eq_error h' hnulls hright hkeys]
      at hon
    cases hon
  · rw [and_iff_right hnulls]
    have hperm : relation.MarkJoinAgrees M numRanks payloads left right ↔
        ∀ projectionIndices : List Nat, (∀ c ∈ projectionIndices, c < left.whole.numColumns) →
          (Table.materialize left.whole.typeOf (((range left.whole.numRows).filter fun i =>
            keeps relation.joinType (isMarked M keys numRanks payloads left right i)).map
              (left.whole.rows.getD · [])) projectionIndices).rows.Perm
          (Table.materialize left.whole.typeOf (left.whole.rows.filter fun l =>
            keeps relation.joinType (right.whole.rows.any
              (keys.holds M.toCudfJoins left.types right.types l))) projectionIndices).rows :=
      forall₂_congr fun _ hproj => agrees_iff (h.withProjection hjoin hproj)
        hpolicy hjoin hright hkeys hranks hnulls
    rw [hperm, forall_projection_perm_iff]
    refine forall₂_congr fun _ _ => ?_
    unfold keeps
    split_ifs
    · exact Bool.not_inj_iff
    · rfl

/-! ### NULLs -/

lemma keysEqual_iff_eq {compareNulls : NullEquality} {key key' : Row V}
    (hlen : key.length = key'.length) :
    keysEqual compareNulls key key' ↔
      key' = key ∧ (compareNulls = .unequal → none ∉ key) := by
  unfold keysEqual
  induction key generalizing key' with
  | nil =>
    obtain rfl := length_eq_zero_iff.1 hlen.symm
    simp
  | cons a key ih =>
    cases key' with
    | nil => cases hlen
    | cons b key' =>
      have ih := ih (Nat.succ.inj hlen)
      have hcell : cellsEqual compareNulls a b ↔ b = a ∧ (compareNulls = .unequal → a ≠ none) := by
        cases compareNulls <;> cases a <;> simp [cellsEqual, eq_comm]
      rw [zip_cons_cons, all_cons, Bool.and_eq_true, ih, hcell, cons.injEq, mem_cons, not_or]
      tauto

omit [LinearOrder V] in
lemma map_some_keyData {key : Row V} (hkey : none ∉ key) (payload : Nat → V) :
    (keyData payload key).map some = key := by
  unfold keyData
  apply ext_getElem
  · simp
  · intro i _ hi
    have hne : key[i] ≠ none := fun hnone => hkey (hnone ▸ getElem_mem hi)
    obtain ⟨v, hv⟩ := Option.ne_none_iff_exists'.1 hne
    simp [hv]

/-- A row of the right input as a row of the left one meets it: its key, and the data of both keys
on the rank that joins it. -/
structure Facing (V : Type) where
  key : Row V
  leftData : List V
  rightData : List V

/-- The data of both keys is the same, and none of it is different from itself. -/
def Facing.SameData (isNan : V → Bool) (f : Facing V) : Prop :=
  f.leftData = f.rightData ∧ ∀ v ∈ f.leftData, isNan v = false

instance (isNan : V → Bool) (f : Facing V) : Decidable (f.SameData isNan) :=
  inferInstanceAs (Decidable (_ ∧ _))

/-- The columns in which a key is NULL. -/
def nullColumns (key : Row V) : List Bool := key.map (·.isNone)

def leftKey (M : MarkJoins V) (keys : JoinKeys V) (left : Partitions V) (i : Nat) : Row V :=
  keyOf M.expressions left.types 0 keys.leftKeyExprs (left.whole.rows.getD i [])

def facing (M : MarkJoins V) (keys : JoinKeys V) (numRanks : Nat) (payloads : Payloads V)
    (left right : Partitions V) (i : Nat) : List (Facing V) :=
  right.parts.zipIdx.flatMap fun part => part.1.rows.zipIdx.map fun r =>
    let key := keyOf M.expressions right.types left.types.length keys.rightKeyExprs r.1
    ⟨key, keyData (payloads.left (part.2 % numRanks) i) (leftKey M keys left i),
      keyData (payloads.right part.2 r.2) key⟩

/-- What keeps the data under NULLs out of the result under `=`: a left row with a NULL in its key
has its data to itself, and a left row without one that shares its data with a right row that has a
NULL has an equal right row too. No key with an equal one is different from itself. -/
def HarmlessNulls (isNan : V → Bool) (key : Row V) (rights : List (Facing V)) : Prop :=
  if none ∈ key then ∀ f ∈ rights, ¬ f.SameData isNan
  else ((∃ f ∈ rights, none ∈ f.key ∧ f.SameData isNan) → ∃ f ∈ rights, f.key = key) ∧
    ((∃ f ∈ rights, f.key = key) → ∀ v, some v ∈ key → isNan v = false)

/-- The same under the null-safe `=`, where NULLs match in the same columns: a left row that shares
its data with a right row that is NULL in other columns has an equal right row too, and a left row
with an equal right row has one with the same data under the NULLs, or shares its data with a row
that is NULL in other columns. -/
def HarmlessNullSafe (isNan : V → Bool) (key : Row V) (rights : List (Facing V)) : Prop :=
  ((∃ f ∈ rights, nullColumns f.key ≠ nullColumns key ∧ f.SameData isNan) →
    ∃ f ∈ rights, f.key = key) ∧
  ((∃ f ∈ rights, f.key = key) → (∃ f ∈ rights, f.key = key ∧ f.SameData isNan) ∨
    ∃ f ∈ rights, nullColumns f.key ≠ nullColumns key ∧ f.SameData isNan)

section Facing

variable {isNan : V → Bool} {key : Row V} {rights : List (Facing V)}

/-- The data of a facing row is that of its key and of the left one, up to what is under NULLs. -/
structure Facing.IsOf (key : Row V) (f : Facing V) : Prop where
  length_eq : f.key.length = key.length
  leftData_eq : ∃ payload, f.leftData = keyData payload key
  rightData_eq : ∃ payload, f.rightData = keyData payload f.key

omit [LinearOrder V] in
/-- Keys with NULLs in the same columns are equal if their data is. -/
lemma Facing.IsOf.key_eq {f : Facing V} (h : f.IsOf key)
    (hcolumns : nullColumns f.key = nullColumns key) (hdata : f.leftData = f.rightData) :
    f.key = key := by
  obtain ⟨payload, hleft⟩ := h.leftData_eq
  obtain ⟨payload', hright⟩ := h.rightData_eq
  rw [hleft, hright] at hdata
  apply ext_getElem h.length_eq
  intro c hc hc'
  have hnull : f.key[c].isNone = key[c].isNone := by
    have hget := congrArg (·[c]?) hcolumns
    simpa [nullColumns, hc, hc'] using hget
  have hcell : key[c].getD (payload c) = f.key[c].getD (payload' c) := by
    have hget := congrArg (·[c]?) hdata
    simpa [keyData, hc, hc'] using hget
  cases hl : key[c] with
  | none => simpa [hl] using hnull
  | some v =>
    obtain ⟨w, hr⟩ : ∃ w, f.key[c] = some w := by
      rw [← Option.isSome_iff_exists, ← Option.not_isNone, hnull, hl]
      rfl
    rw [hl, hr] at hcell
    rw [hr]
    exact congrArg some hcell.symm

omit [LinearOrder V] in
/-- The data of equal keys without NULLs is the same. -/
lemma Facing.IsOf.sameData_iff {f : Facing V} (h : f.IsOf key) (heq : f.key = key)
    (hkey : none ∉ key) : f.SameData isNan ↔ ∀ v, some v ∈ key → isNan v = false := by
  obtain ⟨payload, hleft⟩ := h.leftData_eq
  obtain ⟨payload', hright⟩ := h.rightData_eq
  have hmap := map_some_keyData hkey payload
  have hdata : f.leftData = f.rightData := by
    rw [hleft, hright, heq]
    exact map_injective_iff.2 (fun _ _ => Option.some.inj)
      (hmap.trans (map_some_keyData hkey payload').symm)
  have hmem : ∀ v, some v ∈ key ↔ v ∈ f.leftData := by
    intro v
    nth_rewrite 1 [← hmap]
    rw [hleft]
    exact mem_map_of_injective fun _ _ => Option.some.inj
  simp [SameData, hdata, hmem]

omit [LinearOrder V] in
lemma nullColumns_eq_of_none_notMem {key key' : Row V} (hlen : key'.length = key.length)
    (hkey : none ∉ key) (hkey' : none ∉ key') : nullColumns key' = nullColumns key := by
  have hsome : ∀ {key : Row V}, none ∉ key → nullColumns key = replicate key.length false := by
    intro key hkey
    rw [nullColumns, eq_replicate_iff, length_map]
    refine ⟨rfl, ?_⟩
    rw [forall_mem_map]
    intro cell hcell
    exact Option.isNone_eq_false_iff.2 (Option.isSome_iff_ne_none.2 fun h => hkey (h ▸ hcell))
  rw [hsome hkey, hsome hkey', hlen]

variable (hrights : ∀ f ∈ rights, f.IsOf key)

include hrights in
/-- Under `=`, the rows with the data of a left row stand for the rows with an equal key. -/
lemma exists_sameData_iff_harmlessNulls :
    ((∃ f ∈ rights, f.SameData isNan) ↔ ∃ f ∈ rights, f.key = key ∧ none ∉ key) ↔
      HarmlessNulls isNan key rights := by
  unfold HarmlessNulls
  split_ifs with hnone
  · simp [hnone]
  simp only [hnone, not_false_eq_true, and_true]
  constructor
  · intro h
    refine ⟨fun ⟨f, hf, _, hsame⟩ => h.1 ⟨f, hf, hsame⟩, fun hmatch => ?_⟩
    obtain ⟨f, hf, hsame⟩ := h.2 hmatch
    obtain ⟨payload, hleft⟩ := (hrights f hf).leftData_eq
    intro v hv
    apply hsame.2
    rw [← map_some_keyData hnone payload, ← hleft] at hv
    exact (mem_map_of_injective fun _ _ => Option.some.inj).1 hv
  · rintro ⟨hforeign, hnan⟩
    constructor
    · rintro ⟨f, hf, hsame⟩
      by_cases hfnone : none ∈ f.key
      · exact hforeign ⟨f, hf, hfnone, hsame⟩
      · have hcolumns := nullColumns_eq_of_none_notMem (hrights f hf).length_eq hnone hfnone
        exact ⟨f, hf, (hrights f hf).key_eq hcolumns hsame.1⟩
    · rintro ⟨f, hf, heq⟩
      exact ⟨f, hf, ((hrights f hf).sameData_iff heq hnone).2 (hnan ⟨f, hf, heq⟩)⟩

omit [LinearOrder V] in
include hrights in
lemma exists_sameData_iff_harmlessNullSafe :
    ((∃ f ∈ rights, f.SameData isNan) ↔ ∃ f ∈ rights, f.key = key) ↔
      HarmlessNullSafe isNan key rights := by
  -- The rows with the same data are those with an equal key and those with NULLs elsewhere.
  have hsplit : (∃ f ∈ rights, f.SameData isNan) ↔
      (∃ f ∈ rights, f.key = key ∧ f.SameData isNan) ∨
        ∃ f ∈ rights, nullColumns f.key ≠ nullColumns key ∧ f.SameData isNan := by
    constructor
    · rintro ⟨f, hf, hsame⟩
      by_cases hcolumns : nullColumns f.key = nullColumns key
      · exact .inl ⟨f, hf, (hrights f hf).key_eq hcolumns hsame.1, hsame⟩
      · exact .inr ⟨f, hf, hcolumns, hsame⟩
    · rintro (⟨f, hf, -, hsame⟩ | ⟨f, hf, -, hsame⟩) <;> exact ⟨f, hf, hsame⟩
  have hmatch : (∃ f ∈ rights, f.key = key ∧ f.SameData isNan) → ∃ f ∈ rights, f.key = key :=
    fun ⟨f, hf, heq, _⟩ => ⟨f, hf, heq⟩
  rw [hsplit, HarmlessNullSafe]
  constructor
  · intro h
    exact ⟨fun helsewhere => h.1 (.inr helsewhere), h.2⟩
  · rintro ⟨helsewhere, hdata⟩
    exact ⟨fun hsame => hsame.elim hmatch helsewhere, hdata⟩

end Facing

section Facing

variable (hkeys : keys.IsConsistent) (hpredicates : keys.nonEqualityConditions = []) {i : Nat}

include hkeys in
lemma isOf_of_mem_facing {f : Facing V} (hf : f ∈ facing M keys numRanks payloads left right i) :
    f.IsOf (leftKey M keys left i) := by
  simp only [facing, mem_flatMap, mem_map] at hf
  obtain ⟨part, -, r, -, rfl⟩ := hf
  refine ⟨?_, ⟨_, rfl⟩, ⟨_, rfl⟩⟩
  simpa [leftKey, keyOf] using hkeys.length.symm

include hkeys hpredicates in
/-- For equalities, a left row is marked if a right row has its data. -/
lemma isMarked_iff_sameData : isMarked M keys numRanks payloads left right i ↔
    ∃ f ∈ facing M keys numRanks payloads left right i, f.SameData M.isNan := by
  have hdata : ∀ part : Table V × Nat, ∀ r : Row V × Nat,
      keys.dataMatches M left.types right.types (payloads.left (part.2 % numRanks) i)
        (payloads.right part.2 r.2) (left.whole.rows.getD i []) r.1 ↔
      Facing.SameData M.isNan ⟨keyOf M.expressions right.types left.types.length
        keys.rightKeyExprs r.1,
          keyData (payloads.left (part.2 % numRanks) i) (leftKey M keys left i),
        keyData (payloads.right part.2 r.2) (keyOf M.expressions right.types left.types.length
          keys.rightKeyExprs r.1)⟩ := by
    intro part r
    simp only [dataMatches, predicatesHold, hpredicates, Bool.and_true]
    rw [dataEqual_iff]
    · rfl
    · simpa [length_keyData, keyOf] using hkeys.length
  simp only [isMarked, partMatches, any_eq_true, facing, hdata, mem_flatMap, mem_map]
  constructor
  · rintro ⟨part, hpart, r, hr, hsame⟩
    exact ⟨_, ⟨part, hpart, r, hr, rfl⟩, hsame⟩
  · rintro ⟨_, ⟨part, hpart, r, hr, rfl⟩, hsame⟩
    exact ⟨part, hpart, r, hr, hsame⟩

include hkeys hpredicates in
lemma exists_holds_iff_key_eq {compareNulls : NullEquality}
    (hnulls : keys.compareNulls = some compareNulls) :
    right.whole.rows.any (keys.holds M.toCudfJoins left.types right.types
        (left.whole.rows.getD i [])) ↔
      ∃ f ∈ facing M keys numRanks payloads left right i, f.key = leftKey M keys left i ∧
        (compareNulls = .unequal → none ∉ leftKey M keys left i) := by
  have hholds : ∀ r, keys.holds M.toCudfJoins left.types right.types (left.whole.rows.getD i []) r ↔
      keyOf M.expressions right.types left.types.length keys.rightKeyExprs r =
        leftKey M keys left i ∧ (compareNulls = .unequal → none ∉ leftKey M keys left i) := by
    intro r
    simp only [holds, predicatesHold, hpredicates, Bool.and_true, keysHold, hnulls]
    rw [keysEqual_iff_eq (by simpa [keyOf] using hkeys.length)]
    rfl
  simp only [any_eq_true, hholds]
  constructor
  · rintro ⟨r, hr, hkey⟩
    obtain ⟨part, hpart, hr⟩ := mem_flatMap.1 hr
    obtain ⟨k, hk, rfl⟩ := getElem_of_mem hpart
    obtain ⟨j, hj, rfl⟩ := getElem_of_mem hr
    refine ⟨_, mem_flatMap.2 ⟨(right.parts[k], k), ?_, mem_map.2
      ⟨(right.parts[k].rows[j], j), ?_, rfl⟩⟩, hkey⟩
    · simp [mem_zipIdx_iff_getElem?]
    · simp [mem_zipIdx_iff_getElem?]
  · rintro ⟨f, hf, hkey⟩
    simp only [facing, mem_flatMap, mem_map] at hf
    obtain ⟨part, hpart, r, hr, rfl⟩ := hf
    exact ⟨r.1, mem_flatMap.2 ⟨_, fst_mem_of_mem_zipIdx hpart, fst_mem_of_mem_zipIdx hr⟩, hkey⟩

end Facing

/-- For equalities, a mark join agrees with the join without it if and only if the data under NULLs
is harmless for every row on the left. -/
theorem markJoinAgrees_iff_of_equalities (h : relation.IsSupported left right keys)
    (hright : keys.FindRightTypes left.types right.types) (hpolicy : relation.policy = .left)
    (hjoin : relation.joinType = .leftSemi ∨ relation.joinType = .leftAnti) (hranks : 0 < numRanks)
    (hoff : ∃ results, relation.execute M false numRanks payloads left right = .ok results)
    (hpredicates : keys.nonEqualityConditions = []) :
    relation.MarkJoinAgrees M numRanks payloads left right ↔ ∀ i < left.whole.numRows,
      (keys.compareNulls = some .unequal → HarmlessNulls M.isNan (leftKey M keys left i)
        (facing M keys numRanks payloads left right i)) ∧
      (keys.compareNulls = some .equal → HarmlessNullSafe M.isNan (leftKey M keys left i)
        (facing M keys numRanks payloads left right i)) := by
  have hkeys : keys.IsConsistent := (isConsistent_of_parse h.parse isConsistent_empty).1
  obtain ⟨compareNulls, hnulls⟩ := exists_compareNulls h.parse hpredicates
  have hsome : keys.compareNulls ≠ none := by simp [hnulls]
  rw [markJoinAgrees_iff h hright hpolicy hjoin hranks hoff, and_iff_right hsome]
  refine forall₂_congr fun i _ => ?_
  have hof : ∀ f ∈ facing M keys numRanks payloads left right i, f.IsOf (leftKey M keys left i) :=
    fun f hf => isOf_of_mem_facing hkeys hf
  rw [Bool.eq_iff_iff, isMarked_iff_sameData hkeys hpredicates,
    exists_holds_iff_key_eq hkeys hpredicates hnulls]
  cases compareNulls with
  | unequal => simpa [hnulls] using exists_sameData_iff_harmlessNulls hof
  | equal => simpa [hnulls] using exists_sameData_iff_harmlessNullSafe hof

/-- Integers, all of which are equal to themselves, and a bloom filter that lets everything pass. -/
def MarkJoins.integers : MarkJoins Int where
  toCudfJoins := .nestedLoops .integers fun _ _ _ => true
  isNan _ := false
  rowHasher data := data.foldl (fun hash v => 31 * hash + v.natAbs) 0
  contains _ _ := true
  contains_of_mem _ _ _ := rfl

/-- An input of one column. -/
def columnInput (cells : List (Option Int)) : Partitions Int where
  types := [.int64]
  parts := [⟨[.int64], cells.map ([·]), by simp, by simp⟩]
  nonempty := by simp
  types_eq := by simp

/-- A semi join of two columns that broadcasts the left one. -/
def columnJoin (condition : Expr Int) : BroadcastJoin Int where
  joinType := .leftSemi
  condition := condition
  projectionIndices := [0]
  policy := .left
  cacheEnabled := true
  perfectHashing := false

lemma columnJoin_equal_isSupported (lefts rights : List (Option Int)) :
    (columnJoin (.binaryOp .equal (.columnReference 0) (.columnReference 1))).IsSupported
      (columnInput lefts) (columnInput rights) (equalityKeys (.columnReference 1)) where
  parse := rfl
  keys := {
    left := by
      simp only [equalityKeys, forall_mem_singleton]
      exact .columnReference le_rfl (by simp [columnInput])
    right := by
      simp only [equalityKeys, forall_mem_singleton]
      exact .columnReference le_rfl (by simp [columnInput])
    predicates := nofun }
  joinType := .inr (.inr (.inl rfl))
  perfectHashing _ _ := rfl
  projection := by simp [columnJoin, joinTypes, Partitions.whole, columnInput]

/-- NULLs on both sides, with a 5 under those on the left and a 7 under those on the right. -/
theorem markJoinAgrees_of_equalities_null :
    (columnJoin (.binaryOp .equal (.columnReference 0) (.columnReference 1))).MarkJoinAgrees
      .integers 1 ⟨fun _ _ _ => 5, fun _ _ _ => 7⟩ (columnInput [none, some 1, some 2])
      (columnInput [some 1, none]) := by
  refine (markJoinAgrees_iff_of_equalities (columnJoin_equal_isSupported _ _)
    (findRightTypes_of_columns (by simp [equalityKeys])) rfl (.inl rfl) Nat.one_pos ⟨_, rfl⟩ rfl).2
      fun i hi => ⟨fun _ => ?_, nofun⟩
  have hi : i < 3 := hi
  obtain rfl | rfl | rfl : i = 0 ∨ i = 1 ∨ i = 2 := by omega
  · rw [HarmlessNulls, if_pos (by decide)]
    decide
  · exact ⟨fun _ => by decide, fun _ _ _ => rfl⟩
  · exact ⟨by decide, fun _ _ _ => rfl⟩

/-- Two NULLs with the same data match in a mark join. -/
theorem not_markJoinAgrees_null :
    ¬ (columnJoin (.binaryOp .equal (.columnReference 0) (.columnReference 1))).MarkJoinAgrees
      .integers 1 ⟨fun _ _ _ => 0, fun _ _ _ => 0⟩ (columnInput [none]) (columnInput [none]) := by
  intro hagrees
  have hcolumn : ∀ c ∈ [0], c < (columnInput [none]).types.length := by simp [columnInput]
  obtain ⟨results, hon, hperm⟩ := hagrees [0] hcolumn _ rfl
  obtain rfl := Except.ok.inj hon
  have hlength := hperm.length_eq
  revert hlength
  decide

/-! ### Keys without NULLs -/

section NullFree

/-- The data of keys without NULLs is equal if the keys are, and are all equal to themselves. -/
lemma dataEqual_keyData_iff {isNan : V → Bool} {key key' : Row V} (hlen : key.length = key'.length)
    (hkey : none ∉ key) (hkey' : none ∉ key') (payload payload' : Nat → V) :
    dataEqual isNan (keyData payload key) (keyData payload' key') ↔
      key = key' ∧ ∀ v, some v ∈ key → isNan v = false := by
  rw [dataEqual_iff (by rw [length_keyData, length_keyData, hlen])]
  have hmap := map_some_keyData hkey payload
  have hmap' := map_some_keyData hkey' payload'
  have heq : key = key' ↔ keyData payload key = keyData payload' key' := by
    nth_rewrite 1 [← hmap, ← hmap']
    exact (map_injective_iff.2 fun _ _ => Option.some.inj).eq_iff
  have hmem : ∀ v, some v ∈ key ↔ v ∈ keyData payload key := by
    intro v
    nth_rewrite 1 [← hmap]
    exact mem_map_of_injective fun _ _ => Option.some.inj
  rw [heq]
  simp [hmem]

/-- The data of two rows matches if the rows do, and no key of the left one is different from
itself. -/
lemma dataMatches_iff {leftTypes rightTypes : List DataType} (hkeys : keys.IsConsistent)
    (hnulls : keys.compareNulls ≠ none) (leftPayload rightPayload : Nat → V) {l r : Row V}
    (hl : none ∉ keyOf M.expressions leftTypes 0 keys.leftKeyExprs l)
    (hr : none ∉ keyOf M.expressions rightTypes leftTypes.length keys.rightKeyExprs r) :
    keys.dataMatches M leftTypes rightTypes leftPayload rightPayload l r ↔
      keys.holds M.toCudfJoins leftTypes rightTypes l r ∧
        ∀ v, some v ∈ keyOf M.expressions leftTypes 0 keys.leftKeyExprs l → M.isNan v = false := by
  obtain ⟨compareNulls, hcmp⟩ := Option.ne_none_iff_exists'.1 hnulls
  have hlen : (keyOf M.expressions leftTypes 0 keys.leftKeyExprs l).length =
      (keyOf M.expressions rightTypes leftTypes.length keys.rightKeyExprs r).length := by
    simpa [keyOf] using hkeys.length
  rw [dataMatches, holds, keysHold, hcmp, Bool.and_eq_true,
    Bool.and_eq_true, dataEqual_keyData_iff hlen hl hr, keysEqual_iff_eq hlen]
  simp only [hl, not_false_eq_true, implies_true, and_true]
  rw [eq_comm]
  exact and_right_comm

variable (hleft : ∀ l ∈ left.whole.rows,
  none ∉ keyOf M.expressions left.types 0 keys.leftKeyExprs l)
  (hright : ∀ r ∈ right.whole.rows,
    none ∉ keyOf M.expressions right.types left.types.length keys.rightKeyExprs r)

include hleft hright in
lemma isMarked_iff (hkeys : keys.IsConsistent) (hnulls : keys.compareNulls ≠ none) {i : Nat}
    (hi : i < left.whole.numRows) :
    isMarked M keys numRanks payloads left right i ↔ (∃ r ∈ right.whole.rows,
        keys.holds M.toCudfJoins left.types right.types (left.whole.rows.getD i []) r) ∧
      ∀ v, some v ∈ keyOf M.expressions left.types 0 keys.leftKeyExprs (left.whole.rows.getD i []) →
        M.isNan v = false := by
  have hl : left.whole.rows.getD i [] ∈ left.whole.rows := getD_mem [] hi
  have hmem : ∀ r, r ∈ right.whole.rows ↔ ∃ part ∈ right.parts, r ∈ part.rows :=
    fun r => mem_flatMap
  simp only [isMarked, partMatches, any_eq_true]
  constructor
  · rintro ⟨part, hpart, r, hr, hmatches⟩
    have hr' : r.1 ∈ right.whole.rows :=
      (hmem _).2 ⟨_, fst_mem_of_mem_zipIdx hpart, fst_mem_of_mem_zipIdx hr⟩
    obtain ⟨hholds, hnan⟩ :=
      (dataMatches_iff hkeys hnulls _ _ (hleft _ hl) (hright _ hr')).1 hmatches
    exact ⟨⟨r.1, hr', hholds⟩, hnan⟩
  · rintro ⟨⟨r, hr, hholds⟩, hnan⟩
    obtain ⟨part, hpart, hmem⟩ := (hmem r).1 hr
    obtain ⟨k, hk, rfl⟩ := getElem_of_mem hpart
    obtain ⟨j, hj, rfl⟩ := getElem_of_mem hmem
    refine ⟨(right.parts[k], k), ?_, (right.parts[k].rows[j], j), ?_, ?_⟩
    · simp [mem_zipIdx_iff_getElem?]
    · simp [mem_zipIdx_iff_getElem?]
    · exact (dataMatches_iff hkeys hnulls _ _ (hleft _ hl) (hright _ hr)).2 ⟨hholds, hnan⟩

/-- Without NULLs in the keys, a mark join agrees with the join without it if there is an equality
and no left row with a match has a key that is not equal to itself. -/
theorem markJoinAgrees_iff_of_nullFree (h : relation.IsSupported left right keys)
    (hright' : keys.FindRightTypes left.types right.types) (hpolicy : relation.policy = .left)
    (hjoin : relation.joinType = .leftSemi ∨ relation.joinType = .leftAnti) (hranks : 0 < numRanks)
    (hoff : ∃ results, relation.execute M false numRanks payloads left right = .ok results)
    (hleft : ∀ l ∈ left.whole.rows, none ∉ keyOf M.expressions left.types 0 keys.leftKeyExprs l)
    (hright : ∀ r ∈ right.whole.rows,
      none ∉ keyOf M.expressions right.types left.types.length keys.rightKeyExprs r) :
    relation.MarkJoinAgrees M numRanks payloads left right ↔
      keys.leftKeyExprs ≠ [] ∧ ∀ l ∈ left.whole.rows,
        (∃ r ∈ right.whole.rows, keys.holds M.toCudfJoins left.types right.types l r) →
        ∀ v, some v ∈ keyOf M.expressions left.types 0 keys.leftKeyExprs l → M.isNan v = false := by
  have hkeys : keys.IsConsistent :=
    (isConsistent_of_parse h.parse isConsistent_empty).1
  rw [markJoinAgrees_iff h hright' hpolicy hjoin hranks hoff, ne_eq, hkeys.compareNulls]
  refine and_congr_right fun hexprs => ?_
  have hnulls : keys.compareNulls ≠ none := fun hnone => hexprs (hkeys.compareNulls.1 hnone)
  constructor
  · intro hmarked l hl hmatch
    obtain ⟨i, hi, rfl⟩ := getElem_of_mem hl
    have hget : left.whole.rows.getD i [] = left.whole.rows[i] := by simp [hi]
    rw [← hget] at hmatch ⊢
    have hany : isMarked M keys numRanks payloads left right i = true :=
      (hmarked i hi).trans (any_eq_true.2 hmatch)
    exact ((isMarked_iff hleft hright hkeys hnulls hi).1 hany).2
  · intro hnan i hi
    rw [Bool.eq_iff_iff, isMarked_iff hleft hright hkeys hnulls hi, any_eq_true]
    exact and_iff_left_of_imp (hnan _ (getD_mem [] hi))

end NullFree

theorem markJoinAgrees_of_nullFree_one :
    (columnJoin (.binaryOp .equal (.columnReference 0) (.columnReference 1))).MarkJoinAgrees
      .integers 2 ⟨fun _ _ _ => 0, fun _ _ _ => 0⟩ (columnInput [some 1, some 2])
      (columnInput [some 2, some 3]) := by
  refine (markJoinAgrees_iff_of_nullFree (columnJoin_equal_isSupported _ _)
    (findRightTypes_of_columns (by simp [equalityKeys])) rfl (.inl rfl)
    Nat.two_pos ⟨_, rfl⟩ (by decide) (by decide)).2 ⟨by simp [equalityKeys], ?_⟩
  intro l _ _ v _
  rfl

/-- A condition without an equality is refused with a mark join only. -/
theorem not_markJoinAgrees_less :
    (columnJoin (.binaryOp .less (.columnReference 0) (.columnReference 1))).execute
      .integers true 1
      ⟨fun _ _ _ => 0, fun _ _ _ => 0⟩ (columnInput [some 1]) (columnInput [some 2]) =
      .error (.throws "Invalid access of uninitialized null equality policy") ∧
    ∃ results, (columnJoin (.binaryOp .less (.columnReference 0) (.columnReference 1))).execute
      .integers false 1 ⟨fun _ _ _ => 0, fun _ _ _ => 0⟩ (columnInput [some 1])
      (columnInput [some 2]) = .ok results :=
  ⟨rfl, _, rfl⟩

end Gqe.Join
