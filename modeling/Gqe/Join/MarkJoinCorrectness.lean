import Gqe.Join.MarkJoin

/-!
# What a mark join keeps

Which entries of the hash map are marked after any number of probes, on any number of ranks, and
when a mark join gives the rows that the join without it gives.
-/

namespace Gqe.Join

open Fallible List MarkJoin JoinKeys Bool Function

variable {V : Type} [LinearOrder V] {M : MarkJoins V}

/-! ### Marks -/

/-- The hash map of some rows in which the rows with a property are marked. -/
def MarkJoin.marked (M : MarkJoins V) (build : List (List V)) (p : Nat → Bool) : MarkJoin V where
  build := build
  entries := (range build.length).map fun i => ⟨M.rowHasher (build.getD i []), i, p i⟩

/-- The hash map of rows at some positions in which the rows with a property are marked. -/
def MarkJoin.markedRows (M : MarkJoins V) (build : List (List V)) (rows : List Nat)
    (p : Nat → Bool) : MarkJoin V where
  build := build
  entries := rows.map fun i => ⟨M.rowHasher (build.getD i []), i, p i⟩

section Marks

variable {build : List (List V)} {rows : List Nat} {p q : Nat → Bool} {n : Nat}

lemma create_eq_marked : create M build = .marked M build fun _ => false := by
  unfold create marked
  congr 1
  apply ext_getElem
  · simp
  · intro i hi _
    simp only [length_mapIdx] at hi
    simp [hi]

lemma markedRows_congr (h : ∀ i ∈ rows, p i = q i) :
    markedRows M build rows p = .markedRows M build rows q := by
  unfold markedRows
  congr 1
  apply map_congr_left
  intro i hi
  rw [h i hi]

lemma getD_mem {α : Type} {xs : List α} {i : Nat} (d : α) (hi : i < xs.length) :
    xs.getD i d ∈ xs := by
  simp [hi]

lemma dataEqual_iff {isNan : V → Bool} {a b : List V} (h : a.length = b.length) :
    dataEqual isNan a b ↔ a = b ∧ ∀ v ∈ a, isNan v = false := by
  unfold dataEqual
  induction a generalizing b with
  | nil =>
    obtain rfl := length_eq_zero_iff.1 h.symm
    simp
  | cons x a ih =>
    cases b with
    | nil => cases h
    | cons y b =>
      have ih := ih (Nat.succ.inj h)
      rw [zip_cons_cons, all_cons, cons.injEq, forall_mem_cons]
      simp only [elementsEqual, and_eq_true, decide_eq_true_eq, not_eq_true']
      tauto

/-- A probe marks the rows with the same data, as far as the predicate goes. -/
lemma markProbe_markedRows (isTrue : Nat → Bool) {query : List V}
    (hbuild : ∀ i ∈ rows, (build.getD i []).length = query.length) :
    (markedRows M build rows p).markProbe M isTrue query = .markedRows M build rows fun i =>
      p i || (dataEqual M.isNan (build.getD i []) query && isTrue i) := by
  unfold markProbe markedRows
  simp only [map_map]
  congr 1
  apply map_congr_left
  intro i hi
  have hdata : dataEqual M.isNan (build.getD i []) query → build.getD i [] = query :=
    fun h => ((dataEqual_iff (hbuild i hi)).1 h).1
  simp only [comp_apply]
  cases p i with
  | true => simp
  | false =>
    cases hequal : dataEqual M.isNan (build.getD i []) query with
    | false => simp
    | true =>
      rw [hdata hequal]
      cases isTrue i <;> simp

/-- The bloom filter only drops rows that match nothing. -/
lemma dataEqual_of_not_contains {query : List V}
    (hbuild : ∀ i ∈ rows, (build.getD i []).length = query.length)
    (hcontains : ¬ M.contains ((markedRows M build rows p).entries.map (·.hash))
      (M.rowHasher query)) {i : Nat} (hi : i ∈ rows) :
    dataEqual M.isNan (build.getD i []) query = false := by
  rw [eq_false_iff]
  intro hdata
  have heq := ((dataEqual_iff (hbuild i hi)).1 hdata).1
  refine hcontains (M.contains_of_mem _ _ ?_)
  rw [← heq, mem_map]
  exact ⟨_, mem_map_of_mem hi, rfl⟩

lemma foldl_markProbe_markedRows (isTrue : Nat → Nat → Bool) {queries : List (List V × Nat)}
    (hbuild : ∀ query ∈ queries, ∀ i ∈ rows, (build.getD i []).length = query.1.length) :
    queries.foldl (fun map query =>
        if M.contains (map.entries.map (·.hash)) (M.rowHasher query.1) then
          map.markProbe M (isTrue · query.2) query.1
        else map) (markedRows M build rows p) = .markedRows M build rows fun i =>
      p i || queries.any fun query =>
        dataEqual M.isNan (build.getD i []) query.1 && isTrue i query.2 := by
  induction queries generalizing p with
  | nil => simp
  | cons query queries ih =>
    obtain ⟨hquery, hqs⟩ := forall_mem_cons.1 hbuild
    rw [foldl_cons]
    split_ifs with hcontains
    · rw [markProbe_markedRows _ hquery, ih hqs]
      simp [Bool.or_assoc]
    · rw [ih hqs]
      apply markedRows_congr
      intro i hi
      rw [any_cons, dataEqual_of_not_contains hquery hcontains hi, Bool.false_and,
        Bool.false_or]

lemma markScan_markedRows (joinType : JoinType) : (markedRows M build rows p).markScan joinType =
      rows.filter fun i => keeps joinType (p i) := by
  simp only [markScan, markedRows, filter_map, map_map]
  exact map_id _

end Marks

/-! ### Join tasks -/

/-- The data of the keys of two rows is equal, and the predicates are TRUE on them. -/
def JoinKeys.dataMatches (M : MarkJoins V) (leftTypes rightTypes : List DataType)
    (keys : JoinKeys V) (leftPayload rightPayload : Nat → V) (l r : Row V) : Bool :=
  dataEqual M.isNan (keyData leftPayload (keyOf M.expressions leftTypes 0 keys.leftKeyExprs l))
      (keyData rightPayload
        (keyOf M.expressions rightTypes leftTypes.length keys.rightKeyExprs r)) &&
    keys.predicatesHold M.toCudfJoins leftTypes l r

section Tasks

variable {condition : Expr V} {keys : JoinKeys V} {left right : Table V}
  {leftPayload rightPayload : Nat → Nat → V} {cache : Option (MarkJoin V)} {p : Nat → Bool}

omit [LinearOrder V] in
lemma length_keyData (payload : Nat → V) (key : Row V) :
    (keyData payload key).length = key.length := by
  simp [keyData]

lemma zipIdx_mapIdx {α β : Type} (f : Nat → α → β) (xs : List α) :
    (xs.mapIdx f).zipIdx = xs.zipIdx.map fun x => (f x.2 x.1, x.2) := by
  apply ext_getElem <;> simp

@[simp] def rowsData (C : Cudf V) (types : List DataType) (offset : Nat) (exprs : List (Expr V))
    (payload : Nat → Nat → V) (rows : List (Row V)) : List (List V) :=
  rows.mapIdx fun i r => keyData (payload i) (keyOf C types offset exprs r)

variable {offset : Nat} {exprs : List (Expr V)} {C : Cudf V}

lemma KeyTable.IsFor.data_eq {t : Table V} {keyTable : KeyTable V}
    (h : keyTable.IsFor C t offset exprs) (payload : Nat → Nat → V) :
    keyTable.data payload = rowsData C t.types offset exprs payload t.rows := by
  rw [KeyTable.data, h, rowsData]
  apply ext_getElem <;> simp

variable {payload : Nat → Nat → V}

lemma getD_rowsData {types : List DataType} {rows : List (Row V)} {i : Nat} (hi : i < rows.length) :
    (rowsData C types offset exprs payload rows).getD i [] =
      keyData (payload i) (keyOf C types offset exprs (rows.getD i [])) := by
  simp [hi]

lemma length_of_rowsData {types : List DataType} {rows : List (Row V)} {data : List V}
    (h : data ∈ rowsData C types offset exprs payload rows) : data.length = exprs.length := by
  obtain ⟨i, hi, rfl⟩ := mem_mapIdx.1 h
  rw [length_keyData, keyOf, length_map]

/-- A probe with the keys of the right table, given the predicates by positions. -/
lemma performMarkJoin_rowsData (hlen : keys.leftKeyExprs.length = keys.rightKeyExprs.length)
    {isTrue : Nat → Nat → Bool} (hisTrue : ∀ i j, isTrue i j =
      keys.predicatesHold M.toCudfJoins left.types (left.rows.getD i []) (right.rows.getD j [])) :
    (marked M (rowsData M.expressions left.types 0 keys.leftKeyExprs leftPayload
      left.rows) p).performMarkJoin M isTrue (rowsData M.expressions right.types left.types.length
        keys.rightKeyExprs rightPayload right.rows) = .marked M
      (rowsData M.expressions left.types 0 keys.leftKeyExprs leftPayload left.rows) fun i =>
        p i || right.rows.zipIdx.any fun r => keys.dataMatches M left.types right.types
          (leftPayload i) (rightPayload r.2) (left.rows.getD i []) r.1 := by
  refine (foldl_markProbe_markedRows isTrue fun query hquery i hi => ?_).trans
    (markedRows_congr fun i hi => ?_)
  · rw [length_of_rowsData (getD_mem [] (mem_range.1 hi)),
      length_of_rowsData (fst_mem_of_mem_zipIdx hquery), hlen]
  · have hi : i < left.rows.length := by simpa using hi
    congr 1
    rw [rowsData, zipIdx_mapIdx, any_map, Bool.eq_iff_iff, any_eq_true, any_eq_true]
    refine exists_congr fun r => and_congr_right fun hr => ?_
    have hget : r.1 = right.rows.getD r.2 [] := by
      obtain ⟨-, hlt, heq⟩ := mem_zipIdx hr
      have hlt : r.2 < right.rows.length := by omega
      simp [heq, hlt]
    simp only [comp_apply, getD_rowsData hi, hisTrue, ← hget]
    rfl

/-- A join task adds the marks of the rows that have the data of a row on the right. -/
lemma markJoinTask_eq_ok (hpar : parseJoinCondition {} condition = .ok keys)
    (hkeys : keys.IsSupported left.types right.types) (hnulls : keys.compareNulls ≠ none)
    (hright : keys.FindRightTypes left.types right.types)
    (heval : keys.AreEvaluated M.expressions left right)
    (hcache : cache.getD
      (.create M (rowsData M.expressions left.types 0 keys.leftKeyExprs leftPayload
      left.rows)) = .marked M (rowsData M.expressions left.types 0 keys.leftKeyExprs leftPayload
        left.rows) p) :
    markJoinTask M condition leftPayload rightPayload cache left right = .ok (.marked M
      (rowsData M.expressions left.types 0 keys.leftKeyExprs leftPayload left.rows) fun i =>
        p i || right.rows.zipIdx.any fun r => keys.dataMatches M left.types right.types
          (leftPayload i) (rightPayload r.2) (left.rows.getD i []) r.1) := by
  obtain ⟨evaluated, hadd, hev⟩ := addCondition_eq_ok hpar hright heval
  obtain ⟨compareNulls, hcmp⟩ := Option.ne_none_iff_exists'.1 hnulls
  have hlen : keys.leftKeyExprs.length = keys.rightKeyExprs.length :=
    (isConsistent_of_parse hpar isConsistent_empty).1.length
  unfold markJoinTask
  simp only [hadd, hev.condition, getCompareNulls, hcmp, bind, Except.bind,
    hev.leftKeys.data_eq, hev.rightKeys.data_eq, hcache]
  cases hpreds : keys.nonEqualityConditions with
  | nil =>
    rw [performMarkJoin_rowsData hlen]
    simp [hpreds]
  | cons predicate predicates =>
    obtain ⟨ast, hast⟩ := hkeys.predicates predicate predicates hpreds
    have hast' : parsePredicates left.numColumns predicate predicates = .ok ast := hast
    simp only [hast']
    rw [performMarkJoin_rowsData hlen]
    simp [hpreds, hast]

end Tasks

/-! ### Ranks -/

/-- The caches of the ranks after some parts of the right input. -/
def cachesOf (M : MarkJoins V) (build : Nat → List (List V)) (m : Nat → Table V × Nat → Bool)
    (processed : Nat → List (Table V × Nat)) (rank : Nat) : Option (MarkJoin V) :=
  if processed rank = [] then none
  else some (.marked M (build rank) fun i => (processed rank).any (m i))

section Ranks

variable {condition : Expr V} {numRanks : Nat} {payloads : Payloads V} {left : Table V}
  {build : Nat → List (List V)} {m : Nat → Table V × Nat → Bool}

lemma getD_cachesOf (processed : Nat → List (Table V × Nat)) (rank : Nat) :
    (cachesOf M build m processed rank).getD (.create M (build rank)) =
      .marked M (build rank) fun i => (processed rank).any (m i) := by
  unfold cachesOf
  split_ifs with hemp
  · rw [create_eq_marked, hemp]
    rfl
  · rfl

lemma update_cachesOf (processed : Nat → List (Table V × Nat)) (rank : Nat) (part : Table V × Nat) :
    update (cachesOf M build m processed) rank
      (some (.marked M (build rank) fun i => (processed rank).any (m i) || m i part)) =
    cachesOf M build m (update processed rank (processed rank ++ [part])) := by
  funext rank'
  by_cases h : rank' = rank
  · subst h
    simp [cachesOf]
  · simp [cachesOf, h]

lemma runMarkJoinTasks_eq_ok {parts : List (Table V)} {k : Nat}
    (hstep : ∀ part ∈ parts.zipIdx k, ∀ cache p,
      cache.getD (.create M (build (part.2 % numRanks))) = .marked M (build (part.2 % numRanks)) p →
      markJoinTask M condition (payloads.left (part.2 % numRanks))
        (payloads.right part.2) cache left
        part.1 = .ok (.marked M (build (part.2 % numRanks)) fun i => p i || m i part))
    (processed : Nat → List (Table V × Nat)) :
    runMarkJoinTasks M condition numRanks payloads left k (cachesOf M build m processed) parts =
      .ok (cachesOf M build m fun rank =>
        processed rank ++ (parts.zipIdx k).filter (·.2 % numRanks = rank)) := by
  induction parts generalizing k processed with
  | nil => simp [runMarkJoinTasks]
  | cons part parts ih =>
    obtain ⟨hpart, hparts⟩ := forall_mem_cons.1 hstep
    rw [runMarkJoinTasks]
    simp only [hpart _ _ (getD_cachesOf processed (k % numRanks)), ok_bind]
    rw [update_cachesOf, ih hparts]
    congr 2
    funext rank
    by_cases h : k % numRanks = rank
    · subst h
      simp
    · simp [h, Ne.symm h]

end Ranks

/-! ### Mark joins of partitioned inputs -/

def leftData (M : MarkJoins V) (keys : JoinKeys V) (payloads : Payloads V) (left : Partitions V)
    (rank : Nat) : List (List V) :=
  rowsData M.expressions left.types 0 keys.leftKeyExprs (payloads.left rank) left.whole.rows

/-- Some row of a part on the right has the data of a row on the left in its keys. -/
def partMatches (M : MarkJoins V) (keys : JoinKeys V) (numRanks : Nat) (payloads : Payloads V)
    (left right : Partitions V) (i : Nat) (part : Table V × Nat) : Bool :=
  part.1.rows.zipIdx.any fun r => keys.dataMatches M left.types right.types
    (payloads.left (part.2 % numRanks) i) (payloads.right part.2 r.2)
      (left.whole.rows.getD i []) r.1

def isMarked (M : MarkJoins V) (keys : JoinKeys V) (numRanks : Nat) (payloads : Payloads V)
    (left right : Partitions V) (i : Nat) : Bool :=
  right.parts.zipIdx.any (partMatches M keys numRanks payloads left right i)

section Relation

variable {keys : JoinKeys V} {relation : BroadcastJoin V} {left right : Partitions V}
  {numRanks : Nat} {payloads : Payloads V}

/-- The parts of the right input that a rank joins. -/
def partsOf (numRanks : Nat) (right : Partitions V) (rank : Nat) : List (Table V × Nat) :=
  right.parts.zipIdx.filter (·.2 % numRanks = rank)

omit [LinearOrder V] in
/-- The ranks that extract positions have all parts among them. -/
lemma any_flatten_partsOf (hranks : 0 < numRanks) (right : Partitions V)
    (p : Table V × Nat → Bool) :
    ((range (min numRanks right.parts.length)).map (partsOf numRanks right)).flatten.any p =
      right.parts.zipIdx.any p := by
  rw [Bool.eq_iff_iff, any_eq_true, any_eq_true]
  constructor
  · rintro ⟨part, hpart, hp⟩
    simp only [mem_flatten, mem_map, exists_exists_and_eq_and] at hpart
    obtain ⟨rank, -, hpart⟩ := hpart
    exact ⟨part, mem_of_mem_filter hpart, hp⟩
  · rintro ⟨part, hpart, hp⟩
    refine ⟨part, ?_, hp⟩
    simp only [mem_flatten, mem_map, exists_exists_and_eq_and]
    have hlt := snd_lt_add_of_mem_zipIdx hpart
    have hmod := Nat.mod_lt part.2 hranks
    have hle := Nat.mod_le part.2 numRanks
    refine ⟨part.2 % numRanks, ?_, ?_⟩
    · rw [mem_range]
      omega
    · simpa [partsOf] using hpart

lemma runMarkJoinTasks_whole (h : relation.IsSupported left right keys)
    (hnulls : keys.compareNulls ≠ none) (hright : keys.FindRightTypes left.types right.types)
    (hkeys : ∀ r ∈ right.parts, keys.AreEvaluated M.expressions left.whole r) :
    runMarkJoinTasks M relation.condition numRanks payloads left.whole 0 (fun _ => none)
      right.parts = .ok (cachesOf M (leftData M keys payloads left)
        (partMatches M keys numRanks payloads left right) (partsOf numRanks right)) := by
  refine runMarkJoinTasks_eq_ok ?_ fun _ => []
  intro part hpart cache p hcache
  have hmem : part.1 ∈ right.parts := fst_mem_of_mem_zipIdx hpart
  have htys : part.1.types = right.types := right.types_eq _ hmem
  have hkeys' : keys.IsSupported left.whole.types part.1.types := by
    rw [htys]
    exact h.keys
  rw [markJoinTask_eq_ok h.parse hkeys' hnulls (htys ▸ hright) (hkeys _ hmem) hcache, htys]
  rfl

lemma runMarkJoin_eq_ok (h : relation.IsSupported left right keys)
    (hjoin : relation.joinType = .leftSemi ∨ relation.joinType = .leftAnti) (hranks : 0 < numRanks)
    (hnulls : keys.compareNulls ≠ none) (hright : keys.FindRightTypes left.types right.types)
    (hkeys : ∀ r ∈ right.parts, keys.AreEvaluated M.expressions left.whole r) :
    relation.runMarkJoin M numRanks payloads left right =
      .ok [.table (.materialize left.whole.typeOf
      (((range left.whole.numRows).filter fun i => keeps relation.joinType
        (isMarked M keys numRanks payloads left right i)).map (left.whole.rows.getD · []))
      relation.projectionIndices)] := by
  set ranks := range (min numRanks right.parts.length)
  set m := partMatches M keys numRanks payloads left right
  set lists := ranks.map fun rank => (marked M (leftData M keys payloads left rank)
    fun i => (partsOf numRanks right rank).any (m i)).markScan relation.joinType
  have hext : (ranks.mapM fun rank => extractMarkJoinPositions relation.joinType
      (cachesOf M (leftData M keys payloads left) m (partsOf numRanks right) rank)) =
      .ok (lists.map fun indices => .positions (.left indices)) := by
    rw [map_map]
    refine mapM_eq_ok fun rank hrank => ?_
    have hparts : partsOf numRanks right rank ≠ [] := by
      obtain ⟨hrank, hlt⟩ := Nat.lt_min.1 (mem_range.1 hrank)
      refine ne_nil_of_mem (a := (right.parts[rank], rank)) ?_
      rw [partsOf, mem_filter]
      refine ⟨?_, by simpa using Nat.mod_eq_of_lt hrank⟩
      simp [mem_zipIdx_iff_getElem?]
    simp [cachesOf, hparts, extractMarkJoinPositions]
  have hlists : List.Forall₂ (fun group indices => IsPositionList left.whole.numRows
      (fun i => keeps relation.joinType (group.any (m i))) indices)
      (ranks.map (partsOf numRanks right)) lists := by
    rw [forall₂_map_left_iff, forall₂_map_right_iff, forall₂_same]
    intro rank _
    have hlen : (leftData M keys payloads left rank).length = left.whole.numRows := by
      simp [leftData, Table.numRows]
    rw [← hlen]
    exact .of_eq (markScan_markedRows relation.joinType)
  have hmerged := materializePositions_flatten relation.joinType m hlists
    (h.projection_lt hjoin)
  simp only [ranks, any_flatten_partsOf hranks] at hmerged
  unfold BroadcastJoin.runMarkJoin
  rw [runMarkJoinTasks_whole h hnulls hright hkeys]
  simp only [bind, Except.bind]
  rw [hext]
  simp only [hmerged]
  rfl

end Relation

end Gqe.Join
