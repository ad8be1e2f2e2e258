import Gqe.Uniqueness.Equalities
import Gqe.Uniqueness.Operators

/-!
# Keys of inner joins

A key of one input stays a key of an inner join if every row of that input has at most one partner,
which depends on what pairs of disjuncts of the condition force. The rule looks at each equality
by itself instead.
-/

namespace Gqe.Uniqueness

open UniqueKey List Row Table Relation

variable {V : Type*}

/-! ### Inner joins -/

variable {nulls : NullEquality} {condition : Expr V} {p : List Nat}
  {leftTypes rightTypes : List DataType} {left right : RelationProperties} {n : Nat}
  {key : List Nat} {w w' : Row V}

/-- The columns of the right keys in the joined row. -/
def shiftKeys (n : Nat) (keys : List (List Nat)) : List (List Nat) := keys.map (·.map (· + n))

lemma mem_visitJoin_inner {out : List Nat} : out ∈ visitJoin condition .inner p n left right ↔
      ((innerJoinPropagation condition n left right).1 ∧
        ∃ key ∈ left.uniqueKeys, Chooses (p.map some) key out) ∨
      ((innerJoinPropagation condition n left right).2 ∧
        ∃ key ∈ shiftKeys n right.uniqueKeys, Chooses (p.map some) key out) := by
  simp only [visitJoin, joinPropagation, shiftKeys]
  rcases innerJoinPropagation condition n left right with ⟨_ | _, _ | _⟩ <;>
    simp [mem_emitRemappedKeys]

lemma agree_shift {l l' r r' : Row V} (hl : l.length = n) (hl' : l'.length = n) :
    Agree nulls (key.map (· + n)) (l ++ r) (l' ++ r') ↔ Agree nulls key r r' := by
  have hcol : ∀ (l r : Row V) (c : Nat), l.length = n → col (l ++ r) (c + n) = r.col c := by
    rintro l r c rfl
    rw [Nat.add_comm, col_append_right]
  simp [Agree, hcol _ _ _ hl, hcol _ _ _ hl']

/-- Two joined rows that agree on a key of which all columns are in the output. -/
lemma not_isKey_of_agree {t : Table V}
    (hrows : t.rows = [w.select p, w'.select p]) (hkey : ∀ c ∈ key, c ∈ p)
    (hagree : Agree nulls key w w') : ∃ out, Chooses (p.map some) key out ∧
      ¬ IsKey nulls t out := by
  obtain ⟨out, hout⟩ := exists_chooses hkey
  refine ⟨out, hout, fun h => ?_⟩
  have huniq := h.unique
  rw [hrows, IsUnique, pairwise_pair] at huniq
  exact huniq ((agree_iff_of_chooses hout (outputs_select w p) (outputs_select w' p)).2 hagree)

lemma take_eq_take (hlen : w.length = w'.length)
    (h : ∀ c < n, w.col c = w'.col c) : w.take n = w'.take n := by
  refine ext_getElem (by simp [hlen]) fun i hi hi' => ?_
  simp only [length_take, lt_inf_iff] at hi hi'
  simpa [col, hi.2, hi'.2] using h i hi.1

lemma drop_eq_drop (hlen : w.length = w'.length)
    (h : ∀ c, n ≤ c → w.col c = w'.col c) : w.drop n = w'.drop n := by
  refine ext_getElem (by simp [hlen]) fun i hi hi' => ?_
  simp only [length_drop] at hi hi'
  have hi : n + i < w.length := by omega
  have hi' : n + i < w'.length := by omega
  simpa [col, hi, hi'] using h (n + i) (by omega)

/-! ### What the rule propagates -/

/-- One of the columns of an equality is a key by itself. -/
def HasKeyColumn (keys : List (List Nat)) (e : Nat × Nat) : Prop := [e.1] ∈ keys ∨ [e.2] ∈ keys

section Propagation

variable (hleft : ∀ key ∈ left.uniqueKeys, ∀ c ∈ key, c < n)
include hleft

/-- The keys of the left input are propagated if every disjunct has an equality with a key column of
the right input, or if all disjuncts share equalities for the columns of a composite key. -/
lemma propagation_fst_iff : (innerJoinPropagation condition n left right).1 ↔
      EveryDisjunct (HasKeyColumn (shiftKeys n right.uniqueKeys)) condition ∨
        anyCompositeCovered right
          ((collectEquijoinPairs n condition).image fun p => p.2 - n) := by
  have hcolumn : ∀ c, (c ∈ left.uniqueColumns ++ right.uniqueColumns.map (· + n) ∧ n ≤ c) ↔
      [c] ∈ shiftKeys n right.uniqueKeys := by
    intro c
    simp only [mem_append, mem_uniqueColumns, mem_map, shiftKeys]
    constructor
    · rintro ⟨hmem | ⟨c, hc, rfl⟩, hle⟩
      · exact absurd (hleft _ hmem c mem_cons_self) (Nat.not_lt_of_le hle)
      · exact ⟨[c], hc, rfl⟩
    · rintro ⟨key, hkey, heq⟩
      obtain ⟨d, rfl, rfl⟩ := map_eq_singleton_iff.1 heq
      exact ⟨.inr ⟨d, hkey, rfl⟩, Nat.le_add_left n d⟩
  simp only [innerJoinPropagation, Bool.or_eq_true, (checkJoinCondition_iff _ n condition).1,
    hcolumn]
  rfl

lemma propagation_snd_iff : (innerJoinPropagation condition n left right).2 ↔
      EveryDisjunct (HasKeyColumn left.uniqueKeys) condition ∨
        anyCompositeCovered left ((collectEquijoinPairs n condition).image (·.1)) := by
  have hcolumn : ∀ c, (c ∈ left.uniqueColumns ++ right.uniqueColumns.map (· + n) ∧ c < n) ↔
      [c] ∈ left.uniqueKeys := by
    intro c
    simp only [mem_append, mem_uniqueColumns, mem_map]
    constructor
    · rintro ⟨hmem | ⟨c, -, rfl⟩, hlt⟩
      · exact hmem
      · omega
    · exact fun hkey => ⟨.inl hkey, hleft _ hkey c mem_cons_self⟩
  simp only [innerJoinPropagation, Bool.or_eq_true, (checkJoinCondition_iff _ n condition).2,
    hcolumn]
  rfl

omit hleft

/-- An equality that all disjuncts share holds of both partners of a row. -/
lemma eqvGen_of_mem_pairs {i j : Nat} (hpair : (i, j) ∈ collectEquijoinPairs n condition)
    (shared : Nat → Bool) {d d' : List (Nat × Nat)} (hd : d ∈ disjuncts condition)
    (hd' : d' ∈ disjuncts condition) : i < n ∧ n ≤ j ∧
      EqvGen (Equation shared d d') (i, false) (j, false) ∧
      EqvGen (Equation shared d d') (second shared i) (second shared j) := by
  obtain ⟨hi, hj, hfst⟩ := mem_disjunct_of_mem_pairs hpair hd
  obtain ⟨-, -, hsnd⟩ := mem_disjunct_of_mem_pairs hpair hd'
  refine ⟨hi, hj, ?_, ?_⟩
  · rcases hfst with he | he
    · exact .rel _ _ (.inl ⟨_, he, rfl, rfl⟩)
    · exact .symm _ _ (.rel _ _ (.inl ⟨_, he, rfl, rfl⟩))
  · rcases hsnd with he | he
    · exact .rel _ _ (.inr ⟨_, he, rfl, rfl⟩)
    · exact .symm _ _ (.rel _ _ (.inr ⟨_, he, rfl, rfl⟩))

lemma forcesKey_of_rightCovered (h : anyCompositeCovered right
      ((collectEquijoinPairs n condition).image fun p => p.2 - n)) :
    ForcesKey (fun c => decide (c < n)) condition (shiftKeys n right.uniqueKeys) := by
  intro d hd d' hd'
  simp only [anyCompositeCovered, any_eq_true, Bool.and_eq_true, all_eq_true, decide_eq_true_eq,
    Finset.mem_image] at h
  obtain ⟨key, hkey, -, hcovered⟩ := h
  refine ⟨key.map (· + n), mem_map_of_mem hkey, forall_mem_map.2 fun c hc => ?_⟩
  obtain ⟨⟨i, j⟩, hpair, rfl⟩ := hcovered c hc
  obtain ⟨hi, hj, hfst, hsnd⟩ := eqvGen_of_mem_pairs hpair (fun c => decide (c < n)) hd hd'
  have hshared : second (fun c => decide (c < n)) i = (i, false) := by simp [hi]
  rw [Nat.sub_add_cancel hj]
  rw [hshared] at hsnd
  exact .trans _ _ _ (.symm _ _ hfst) hsnd

lemma forcesKey_of_leftCovered (h : anyCompositeCovered left
      ((collectEquijoinPairs n condition).image (·.1))) :
    ForcesKey (fun c => decide (n ≤ c)) condition left.uniqueKeys := by
  intro d hd d' hd'
  simp only [anyCompositeCovered, any_eq_true, Bool.and_eq_true, all_eq_true, decide_eq_true_eq,
    Finset.mem_image] at h
  obtain ⟨key, hkey, -, hcovered⟩ := h
  refine ⟨key, hkey, fun c hc => ?_⟩
  obtain ⟨⟨i, j⟩, hpair, rfl⟩ := hcovered c hc
  obtain ⟨hi, hj, hfst, hsnd⟩ := eqvGen_of_mem_pairs hpair (fun c => decide (n ≤ c)) hd hd'
  have hshared : second (fun c => decide (n ≤ c)) j = (j, false) := by simp [hj]
  rw [hshared] at hsnd
  exact .trans _ _ _ hfst (.symm _ _ hsnd)

end Propagation

variable [LinearOrder V] {C : Cudf V}

/-- Every key recorded for an inner join is a key of the join of any two tables of the given types
that have the keys recorded for them. -/
def InnerJoinKeysHold (nulls : NullEquality) (C : Cudf V) (condition : Expr V) (p : List Nat)
    (leftTypes rightTypes : List DataType) (left right : RelationProperties) : Prop :=
  ∀ l r : Table V, l.types = leftTypes → r.types = rightTypes → left.Hold nulls l →
    right.Hold nulls r →
    (RelationProperties.ofKeys (visitJoin condition .inner p leftTypes.length left right)).Hold
      nulls (l.join C condition .inner p r)

/-- If every disjunct has an equality with a key column of the other input, and a key of an input
has all its columns in the output, then a row of that input has at most one partner. -/
def Justified (condition : Expr V) (p : List Nat) (n : Nat) (left right : RelationProperties) :
    Prop :=
  (EveryDisjunct (HasKeyColumn (shiftKeys n right.uniqueKeys)) condition →
    (∃ key ∈ left.uniqueKeys, ∀ c ∈ key, c ∈ p) →
      ForcesKey (fun c => decide (c < n)) condition (shiftKeys n right.uniqueKeys)) ∧
  (EveryDisjunct (HasKeyColumn left.uniqueKeys) condition →
    (∃ key ∈ shiftKeys n right.uniqueKeys, ∀ c ∈ key, c ∈ p) →
      ForcesKey (fun c => decide (n ≤ c)) condition left.uniqueKeys)

variable {l r : Table V}

lemma ForcesKey.pairwise_right (hr : right.Hold nulls r)
    (h : ForcesKey (fun c => decide (c < l.numColumns)) condition
      (shiftKeys l.numColumns right.uniqueKeys)) : ∀ x ∈ l.rows, r.rows.Pairwise fun y y' =>
      ¬ (condition.IsTrue C (joinConditionTypes l r) (x ++ y) ∧
        condition.IsTrue C (joinConditionTypes l r) (x ++ y')) := by
  refine fun x hx => hr.pairwise.imp fun {y y'} hyy' hmatch => ?_
  have hx := l.length_row x hx
  have hshared : ∀ c, decide (c < l.numColumns) → col (x ++ y) c = col (x ++ y') c := by
    intro c hc
    have hc : c < x.length := hx.symm ▸ of_decide_eq_true hc
    rw [col_append_left hc, col_append_left hc]
  obtain ⟨_, hshift, hagree⟩ := h.agree C _ (by simp [shiftKeys]) hshared hmatch.1 hmatch.2
  obtain ⟨key, hkey, rfl⟩ := mem_map.1 hshift
  exact hyy' key hkey ((agree_shift hx hx).1 hagree).of_unequal

lemma ForcesKey.pairwise_left (hl : left.Hold nulls l)
    (h : ForcesKey (fun c => decide (l.numColumns ≤ c)) condition left.uniqueKeys) :
    ∀ y ∈ r.rows, l.rows.Pairwise fun x x' =>
      ¬ (condition.IsTrue C (joinConditionTypes l r) (x ++ y) ∧
        condition.IsTrue C (joinConditionTypes l r) (x' ++ y)) := by
  refine fun y _ => hl.pairwise.imp_of_mem fun {x x'} hx hx' hxx' hmatch => ?_
  have hlt : ∀ key ∈ left.uniqueKeys, ∀ c ∈ key, c < l.numColumns :=
    fun key hkey => (hl key hkey).lt_numColumns
  have hshared : ∀ c, decide (l.numColumns ≤ c) → col (x ++ y) c = col (x' ++ y) c := by
    intro c hc
    obtain ⟨c, rfl⟩ := Nat.exists_eq_add_of_le (of_decide_eq_true hc)
    have hlen : x.length = l.numColumns := l.length_row x hx
    have hlen' : x'.length = l.numColumns := l.length_row x' hx'
    rw [← hlen, col_append_right, hlen, ← hlen', col_append_right]
  obtain ⟨key, hkey, hagree⟩ := h.agree C _ (by simpa using hlt) hshared hmatch.1 hmatch.2
  exact hxx' key hkey ((agree_append ((hl key hkey).lt_length hx)
    ((hl key hkey).lt_length hx')).1 hagree).of_unequal

/-- A justified propagation is sound, whatever the condition. -/
lemma Justified.keysHold (h : Justified condition p leftTypes.length left right) :
    InnerJoinKeysHold nulls C condition p leftTypes rightTypes left right := by
  rintro l r rfl - hl hr
  have hlt : ∀ key ∈ left.uniqueKeys, ∀ c ∈ key, c < l.types.length :=
    fun key hkey => (hl key hkey).lt_numColumns
  refine hold_ofKeys.2 fun out hout _ => ?_
  rcases mem_visitJoin_inner.1 hout with ⟨hflag, key, hkey, hchoice⟩ | ⟨hflag, _, hshift, hchoice⟩
  · have hforces := ((propagation_fst_iff hlt).1 hflag).elim
      (fun hevery => h.1 hevery ⟨key, hkey, hchoice.mem⟩) forcesKey_of_rightCovered
    refine isKey_materialize (IsUnique.pair_left (hl key hkey).unique ?_ ?_) hchoice
    · simpa using hforces.pairwise_right hr
    · exact fun x hx x' hx' y y' => (agree_append ((hl key hkey).lt_length hx)
        ((hl key hkey).lt_length hx')).1
  · have hforces := ((propagation_snd_iff hlt).1 hflag).elim
      (fun hevery => h.2 hevery ⟨_, hshift, hchoice.mem⟩) forcesKey_of_leftCovered
    obtain ⟨key, hkey, rfl⟩ := mem_map.1 hshift
    refine isKey_materialize (IsUnique.pair_right Agree.symm (hr key hkey).unique ?_ ?_) hchoice
    · simpa using hforces.pairwise_left hl
    · exact fun x hx x' hx' y y' => (agree_shift (l.length_row x hx) (l.length_row x' hx')).1

/-! ### Necessity -/

/-- Columns of keys and of the condition are columns of the inputs. -/
structure InRange (condition : Expr V) (leftTypes rightTypes : List DataType)
    (left right : RelationProperties) : Prop where
  condition_columns : ∀ c ∈ condition.columns, c < leftTypes.length + rightTypes.length
  left_keys : ∀ key ∈ left.uniqueKeys, ∀ c ∈ key, c < leftTypes.length
  right_keys : ∀ key ∈ right.uniqueKeys, ∀ c ∈ key, c < rightTypes.length
  left_ne_nil : leftTypes ≠ []
  right_ne_nil : rightTypes ≠ []

def tableOf (types : List DataType) (htypes : types ≠ []) (rows : List (Row V))
    (hrows : ∀ r ∈ rows, r.length = types.length) : Table V :=
  ⟨types, rows, hrows, fun h => absurd h htypes⟩

lemma rows_join_right {x y y' : Row V} (hl : l.rows = [x]) (hr : r.rows = [y, y'])
    (hp : p ≠ []) (h : condition.IsTrue C (joinConditionTypes l r) (x ++ y))
    (h' : condition.IsTrue C (joinConditionTypes l r) (x ++ y')) :
    (l.join C condition .inner p r).rows = [(x ++ y).select p, (x ++ y').select p] := by
  simp [join, materialize, build, hp, joinRows, joinMatches, hl, hr, h, h']

lemma rows_join_left {x x' y : Row V} (hl : l.rows = [x, x']) (hr : r.rows = [y])
    (hp : p ≠ []) (h : condition.IsTrue C (joinConditionTypes l r) (x ++ y))
    (h' : condition.IsTrue C (joinConditionTypes l r) (x' ++ y)) :
    (l.join C condition .inner p r).rows = [(x ++ y).select p, (x' ++ y).select p] := by
  simp [join, materialize, build, hp, joinRows, joinMatches, hl, hr, h, h']

/-- Recorded keys do not hold of two joined rows that agree on the key they come from. -/
lemma InnerJoinKeysHold.not_agree
    (h : InnerJoinKeysHold nulls C condition p leftTypes rightTypes left right)
    (hl : l.types = leftTypes) (hr : r.types = rightTypes) (hL : left.Hold nulls l)
    (hR : right.Hold nulls r) (hne : key ≠ []) (hp : ∀ c ∈ key, c ∈ p)
    (hrows : (l.join C condition .inner p r).rows = [w.select p, w'.select p])
    (hrecorded : ∀ out, Chooses (p.map some) key out →
      out ∈ visitJoin condition .inner p leftTypes.length left right) : ¬ Agree nulls key w w' := by
  intro hagree
  obtain ⟨out, hout, hnot⟩ := not_isKey_of_agree hrows hp hagree
  exact hnot (hold_ofKeys.1 (h l r hl hr hL hR) out (hrecorded out hout) (hout.ne_nil hne))

section
variable [Infinite V] {atom : Nat → Nat → Prop} (hcondition : IsFormula atom condition)
  (hrange : InRange condition leftTypes rightTypes left right)
  (h : InnerJoinKeysHold nulls C condition p leftTypes rightTypes left right)
include hcondition hrange h

lemma forcesKey_of_propagateLeft
    (hflag : (innerJoinPropagation condition leftTypes.length left right).1) {key : List Nat}
    (hkey : key ∈ left.uniqueKeys) (hp : ∀ c ∈ key, c ∈ p) :
    ForcesKey (fun c => decide (c < leftTypes.length)) condition
      (shiftKeys leftTypes.length right.uniqueKeys) := by
  by_contra hforces
  have hrightKeys : ∀ key ∈ shiftKeys leftTypes.length right.uniqueKeys, ∀ c ∈ key,
      c < leftTypes.length + rightTypes.length := by
    intro _ hshift _ hc
    obtain ⟨k, hk, rfl⟩ := mem_map.1 hshift
    obtain ⟨c, hck, rfl⟩ := mem_map.1 hc
    have := hrange.right_keys k hk c hck
    omega
  obtain ⟨w, w', hw, hw', hshared, htrue, htrue', hnull, hkeys⟩ :=
    exists_rows_of_not_forcesKey C (fun i => (leftTypes ++ rightTypes).getD i .empty) hcondition
      hforces hrange.condition_columns hrightKeys
  have hcol : ∀ c < leftTypes.length, w.col c = w'.col c := fun c hc =>
    hshared c (by simpa using hc)
  have hw_eq : w.take leftTypes.length ++ w.drop leftTypes.length = w := take_append_drop _ _
  have hw'_eq : w.take leftTypes.length ++ w'.drop leftTypes.length = w' := by
    rw [take_eq_take (hw.trans hw'.symm) hcol, take_append_drop]
  have hlen : (w.take leftTypes.length).length = leftTypes.length := by simp [hw]
  -- the row of the left input and its two partners
  let l := tableOf leftTypes hrange.left_ne_nil [w.take leftTypes.length] (by simp [hw])
  let r := tableOf rightTypes hrange.right_ne_nil
    [w.drop leftTypes.length, w'.drop leftTypes.length] (by simp [hw, hw'])
  have hl : left.Hold nulls l := fun k hk => ⟨hrange.left_keys k hk, pairwise_singleton _ _⟩
  have hr : right.Hold nulls r := by
    refine fun k hk => ⟨hrange.right_keys k hk, pairwise_pair.2 fun hagree => ?_⟩
    rw [← agree_shift hlen hlen, hw_eq, hw'_eq] at hagree
    obtain ⟨c, hc, hne⟩ := hkeys _ (mem_map.2 ⟨k, hk, rfl⟩)
    exact hne (hagree c hc).1
  have hrows := rows_join_right (l := l) (r := r) rfl rfl
    (ne_nil_of_mem (hp _ (head_mem (left.ne_nil key hkey)))) (by rwa [hw_eq])
    (by rwa [hw'_eq])
  rw [hw_eq, hw'_eq] at hrows
  refine h.not_agree rfl rfl hl hr (left.ne_nil key hkey) hp hrows
    (fun out hout => mem_visitJoin_inner.2 (.inl ⟨hflag, key, hkey, hout⟩)) fun c hc => ?_
  have hlt := hrange.left_keys key hkey c hc
  exact ⟨hcol c hlt, fun _ => hnull c (by omega)⟩

lemma forcesKey_of_propagateRight
    (hflag : (innerJoinPropagation condition leftTypes.length left right).2) {key : List Nat}
    (hkey : key ∈ shiftKeys leftTypes.length right.uniqueKeys) (hp : ∀ c ∈ key, c ∈ p) :
    ForcesKey (fun c => decide (leftTypes.length ≤ c)) condition left.uniqueKeys := by
  by_contra hforces
  have hleftKeys : ∀ key ∈ left.uniqueKeys, ∀ c ∈ key, c < leftTypes.length + rightTypes.length :=
    fun k hk c hc => Nat.lt_add_right _ (hrange.left_keys k hk c hc)
  obtain ⟨w, w', hw, hw', hshared, htrue, htrue', hnull, hkeys⟩ :=
    exists_rows_of_not_forcesKey C (fun i => (leftTypes ++ rightTypes).getD i .empty) hcondition
      hforces hrange.condition_columns hleftKeys
  have hcol : ∀ c, leftTypes.length ≤ c → w.col c = w'.col c :=
    fun c hc => hshared c (by simpa using hc)
  have hw_eq : w.take leftTypes.length ++ w.drop leftTypes.length = w := take_append_drop _ _
  have hw'_eq : w'.take leftTypes.length ++ w.drop leftTypes.length = w' := by
    rw [drop_eq_drop (hw.trans hw'.symm) hcol, take_append_drop]
  have hlen : (w.take leftTypes.length).length = leftTypes.length := by simp [hw]
  have hlen' : (w'.take leftTypes.length).length = leftTypes.length := by simp [hw']
  -- the row of the right input and its two partners
  let l := tableOf leftTypes hrange.left_ne_nil
    [w.take leftTypes.length, w'.take leftTypes.length] (by simp [hw, hw'])
  let r := tableOf rightTypes hrange.right_ne_nil [w.drop leftTypes.length] (by simp [hw])
  have hl : left.Hold nulls l := by
    refine fun k hk => ⟨hrange.left_keys k hk, pairwise_pair.2 fun hagree => ?_⟩
    rw [← agree_append (hlen.symm ▸ hrange.left_keys k hk)
      (hlen'.symm ▸ hrange.left_keys k hk), hw_eq, hw'_eq] at hagree
    obtain ⟨c, hc, hne⟩ := hkeys k hk
    exact hne (hagree c hc).1
  have hr : right.Hold nulls r :=
    fun k hk => ⟨hrange.right_keys k hk, pairwise_singleton _ _⟩
  obtain ⟨k, hk, hkeyk⟩ := mem_map.1 hkey
  have hne : key ≠ [] := by simpa [← hkeyk] using right.ne_nil k hk
  have hrows := rows_join_left (l := l) (r := r) rfl rfl
    (ne_nil_of_mem (hp _ (head_mem hne))) (by rwa [hw_eq]) (by rwa [hw'_eq])
  rw [hw_eq, hw'_eq] at hrows
  refine h.not_agree rfl rfl hl hr hne hp hrows
    (fun out hout => mem_visitJoin_inner.2 (.inr ⟨hflag, key, hkey, hout⟩)) ?_
  subst hkeyk
  intro _ hc
  obtain ⟨c, hck, rfl⟩ := mem_map.1 hc
  have hlt := hrange.right_keys k hk c hck
  exact ⟨hcol _ (by omega), fun _ => hnull _ (by omega)⟩

lemma justified_of_keysHold : Justified condition p leftTypes.length left right :=
  ⟨fun hevery ⟨_, hkey, hp⟩ => forcesKey_of_propagateLeft hcondition hrange h
      ((propagation_fst_iff hrange.left_keys).2 (.inl hevery)) hkey hp,
    fun hevery ⟨_, hkey, hp⟩ => forcesKey_of_propagateRight hcondition hrange h
      ((propagation_snd_iff hrange.left_keys).2 (.inl hevery)) hkey hp⟩

end

/-! ### Conditions of equalities -/

/-- An equality of a column of the left input with one of the right input. -/
def CrossSide (n m c₀ c₁ : Nat) : Prop :=
  (c₀ < n ∧ n ≤ c₁ ∧ c₁ < n + m) ∨ (c₁ < n ∧ n ≤ c₀ ∧ c₀ < n + m)

omit [LinearOrder V] in
lemma inRange_of_crossSide
    (hcondition : IsFormula (CrossSide leftTypes.length rightTypes.length) condition)
    (hl : ∀ key ∈ left.uniqueKeys, ∀ c ∈ key, c < leftTypes.length)
    (hr : ∀ key ∈ right.uniqueKeys, ∀ c ∈ key, c < rightTypes.length) :
    InRange condition leftTypes rightTypes left right := by
  obtain ⟨c₀, c₁, hatom⟩ := hcondition.exists_atom
  refine ⟨hcondition.columns fun c₀ c₁ h => ?_, hl, hr, ?_, ?_⟩
  · rcases h with h | h <;> omega
  · rintro rfl
    simp [CrossSide] at hatom
  · rintro rfl
    simp only [CrossSide, length_nil] at hatom
    omega

/-- **Disjunctive conditions.** The keys recorded for an inner join on equalities between the two
inputs hold exactly if any two disjuncts force two partners of a row to be the same. -/
theorem innerJoinKeysHold_iff_justified [Infinite V]
    (hcondition : IsFormula (CrossSide leftTypes.length rightTypes.length) condition)
    (hleft : ∀ key ∈ left.uniqueKeys, ∀ c ∈ key, c < leftTypes.length)
    (hright : ∀ key ∈ right.uniqueKeys, ∀ c ∈ key, c < rightTypes.length) :
    InnerJoinKeysHold nulls C condition p leftTypes rightTypes left right ↔
      Justified condition p leftTypes.length left right :=
  ⟨justified_of_keysHold hcondition (inRange_of_crossSide hcondition hleft hright),
    Justified.keysHold⟩

/-- The join condition `l.0 = r.0 OR l.1 = r.1`. -/
def eitherEqual : Expr Int :=
  .binaryOp .nullLogicalOr (.binaryOp .equal (.columnReference 0) (.columnReference 2))
    (.binaryOp .equal (.columnReference 1) (.columnReference 3))

def eachColumn : RelationProperties := .ofKeys [[0], [1]]

def twoColumns (rows : List (Row Int)) (h : ∀ r ∈ rows, r.length = 2) : Table Int :=
  tableOf [.int64, .int64] (by simp) rows h

/-- The join condition `l.0 = r.0 OR (l.0 = r.0 AND l.1 = r.1)`. -/
def sharedEquality : Expr Int :=
  .binaryOp .nullLogicalOr (.binaryOp .equal (.columnReference 0) (.columnReference 2))
    (.binaryOp .nullLogicalAnd (.binaryOp .equal (.columnReference 0) (.columnReference 2))
      (.binaryOp .equal (.columnReference 1) (.columnReference 3)))

theorem innerJoinKeysHold_sharedEquality :
    InnerJoinKeysHold .unequal .integers sharedEquality [0, 1, 2, 3] [.int64, .int64]
      [.int64, .int64] eachColumn eachColumn := by
  refine (innerJoinKeysHold_iff_justified (.or (.inr rfl) (.equal (by simp [CrossSide]))
    (.and (.inr rfl) (.equal (by simp [CrossSide])) (.equal (by simp [CrossSide]))))
    (by decide) (by decide)).2 ⟨fun _ _ d hd d' hd' => ?_, fun _ _ d hd d' hd' => ?_⟩
  all_goals have hpair : (0, 2) ∈ collectEquijoinPairs 2 sharedEquality := by decide
  · obtain ⟨-, -, hfst, hsnd⟩ := eqvGen_of_mem_pairs hpair (fun c => decide (c < 2)) hd hd'
    exact ⟨[2], by decide, by simpa using hfst.symm.trans _ _ _ hsnd⟩
  · obtain ⟨-, -, hfst, hsnd⟩ := eqvGen_of_mem_pairs hpair (fun c => decide (2 ≤ c)) hd hd'
    exact ⟨[0], by decide, by simpa using hfst.trans _ _ _ hsnd.symm⟩

/-- A row with two partners, one by each disjunct. -/
theorem eitherEqual_breaks_key : let l := twoColumns [[some 1, some 2]] (by simp)
    let r := twoColumns [[some 1, some 9], [some 8, some 2]] (by simp)
    eachColumn.Hold .unequal l ∧ eachColumn.Hold .unequal r ∧
      ¬ (RelationProperties.ofKeys (visitJoin eitherEqual .inner [0, 1, 2, 3] 2 eachColumn
        eachColumn)).Hold .unequal (l.join .integers eitherEqual .inner [0, 1, 2, 3] r) := by
  refine ⟨by decide, by decide, fun h => ?_⟩
  have hout : [0] ∈ visitJoin eitherEqual .inner [0, 1, 2, 3] 2 eachColumn eachColumn :=
    mem_visitJoin_inner.2 (.inl ⟨by decide, [0], by decide, .cons rfl .nil⟩)
  exact absurd (hold_ofKeys.1 h [0] hout (by simp)) (by decide)

end Gqe.Uniqueness
