import Gqe.Uniqueness.Equalities
import Mathlib.Algebra.Group.Nat.Defs

/-!
# Join policies

The rule of `optimizer/rules/join_unique_keys.cpp`: an inner equijoin whose keys cover a unique key
of one input is marked, so that the executor may stop at the first match in that input.
-/

namespace Gqe.Uniqueness

open UniqueKey Prod Option

variable {V : Type*}

/-! ### The rule -/

inductive UniqueKeysPolicy where
  | none | right | left | either
  deriving DecidableEq

/-- `is_equijoin_predicate`: the left and right key indices after those of the condition were
pushed, `none` if it is not a conjunction of equalities between columns of the two inputs. -/
def isEquijoinPredicate (numColumnsLeft : Nat) :
    Expr V → (keyIndices : List Nat × List Nat) → Option (List Nat × List Nat)
  | .binaryOp .equal (.columnReference c₀) (.columnReference c₁), (leftKeys, rightKeys) =>
    if decide (c₀ < numColumnsLeft) = decide (c₁ < numColumnsLeft) then none
    else some (leftKeys ++ [if c₀ < numColumnsLeft then c₀ else c₁],
      rightKeys ++ [(if c₀ < numColumnsLeft then c₁ else c₀) - numColumnsLeft])
  | .binaryOp .logicalAnd lhs rhs, keyIndices
  | .binaryOp .nullLogicalAnd lhs rhs, keyIndices => do
    let keyIndices ← isEquijoinPredicate numColumnsLeft lhs keyIndices
    isEquijoinPredicate numColumnsLeft rhs keyIndices
  | _, _ => none

def sideCovered (p : RelationProperties) (equiKeys : List Nat) : Bool :=
  p.uniqueKeys.any fun key => key.all (decide <| · ∈ equiKeys)

/-- The policy with which the rule marks a join, if any. -/
def markedPolicy (condition : Expr V) (joinType : JoinType) (numColumnsLeft : Nat)
    (left right : RelationProperties) : Option UniqueKeysPolicy :=
  if joinType ≠ .inner then none
  else (isEquijoinPredicate numColumnsLeft condition ([], [])).bind fun (leftKeys, rightKeys) =>
    match sideCovered left leftKeys, sideCovered right rightKeys with
    | true, true => some .either
    | true, false => some .left
    | false, true => some .right
    | false, false => none

/-- `visit(join_relation)`: the policy of the join and whether the rule was applied. -/
def visitJoinPolicy (condition : Expr V) (joinType : JoinType) (numColumnsLeft : Nat)
    (left right : RelationProperties) (policy : UniqueKeysPolicy) (ruleApplied : Bool) :
    UniqueKeysPolicy × Bool :=
  match markedPolicy condition joinType numColumnsLeft left right with
  | some marked => (marked, true)
  | none => (policy, ruleApplied)

/-! ### Partners of a row -/

/-- Rows that agree with the same row on the columns of a key are one row. -/
lemma IsKey.length_filter_le_one {nulls : NullEquality} {t : Table V} {key : List Nat}
    (h : IsKey nulls t key) {pair : Nat → Nat → Prop} (hcov : ∀ c ∈ key, ∃ d, pair c d)
    (y : Row V) {p : Row V → Bool}
    (hp : ∀ x ∈ t.rows, p x → ∀ c d, pair c d → ValuesAgree .unequal (x.col c) (y.col d)) :
    (t.rows.filter p).length ≤ 1 := by
  refine h.unique.length_filter_le_one fun x hx x' hx' hpx hpx' => Agree.of_unequal fun c hc => ?_
  obtain ⟨d, hd⟩ := hcov c hc
  exact (hp x hx hpx c d hd).trans (hp x' hx' hpx' c d hd).symm

section
variable [LinearOrder V] {C : Cudf V} {τ : Nat → DataType}

/-- An equality between columns of the two inputs compares a left with a right key. -/
lemma isTrue_equal_columns {n c₀ c₁ : Nat} (h : decide (c₀ < n) ≠ decide (c₁ < n)) {l r : Row V}
    (hl : l.length = n) :
    (Expr.binaryOp .equal (.columnReference c₀) (.columnReference c₁)).IsTrue C τ (l ++ r) ↔
      ValuesAgree .unequal (l.col (if c₀ < n then c₀ else c₁))
        (r.col ((if c₀ < n then c₁ else c₀) - n)) := by
  have hr : ∀ c, ¬ c < n → Row.col (l ++ r) c = r.col (c - n) := by
    intro c hc
    obtain ⟨d, rfl⟩ := Nat.exists_eq_add_of_le (Nat.le_of_not_lt hc)
    rw [← hl, Row.col_append_right, Nat.add_sub_cancel_left]
  have hL : ∀ c, c < n → Row.col (l ++ r) c = l.col c := by
    rintro c hc
    exact Row.col_append_left (hl ▸ hc)
  rw [Expr.isTrue_equal]
  simp only [Expr.eval]
  by_cases h₀ : c₀ < n
  · have h₁ : ¬ c₁ < n := by simpa [h₀] using h
    simp [ValuesAgree, h₀, hL c₀ h₀, hr c₁ h₁]
  · have h₁ : c₁ < n := by simpa [h₀] using h
    simp only [ValuesAgree, h₀, hL c₁ h₁, hr c₀ h₀, true_imp_iff]
    constructor
    · rintro ⟨heq, hne⟩
      exact ⟨heq.symm, heq ▸ hne⟩
    · rintro ⟨heq, hne⟩
      exact ⟨heq.symm, heq ▸ hne⟩

/-- Pairs of keys were pushed, and the condition is TRUE if the rows agree on each of them. -/
def PushesKeys (C : Cudf V) (τ : Nat → DataType) (n : Nat) (condition : Expr V)
    (keys keys' : List Nat × List Nat) : Prop :=
  ∃ pairs : List (Nat × Nat), keys' = (keys.1 ++ pairs.map fst, keys.2 ++ pairs.map snd) ∧
    ∀ l r : Row V, l.length = n → (condition.IsTrue C τ (l ++ r) ↔
      ∀ p ∈ pairs, ValuesAgree .unequal (l.col p.1) (r.col p.2))

variable {n : Nat}

/-- The keys of the second conjunct are pushed after those of the first. -/
lemma PushesKeys.and {lhs rhs condition : Expr V} {keys mid keys' : List Nat × List Nat}
    (hl : PushesKeys C τ n lhs keys mid) (hr : PushesKeys C τ n rhs mid keys')
    (hcond : ∀ r, condition.IsTrue C τ r ↔ lhs.IsTrue C τ r ∧ rhs.IsTrue C τ r) :
    PushesKeys C τ n condition keys keys' := by
  obtain ⟨ps, rfl, hps⟩ := hl
  obtain ⟨qs, rfl, hqs⟩ := hr
  refine ⟨ps ++ qs, by simp, ?_⟩
  intro l r hlen
  rw [hcond, hps l r hlen, hqs l r hlen, List.forall_mem_append]

lemma pushesKeys_of_equijoin {condition : Expr V} {keys keys' : List Nat × List Nat}
    (h : isEquijoinPredicate n condition keys = some keys') :
    PushesKeys C τ n condition keys keys' := by
  fun_induction isEquijoinPredicate n condition keys generalizing keys' with
  | case1 c₀ c₁ leftKeys rightKeys => simp at h
  | case2 c₀ c₁ leftKeys rightKeys hside =>
    simp only [some.injEq] at h
    refine ⟨[(if c₀ < n then c₀ else c₁, (if c₀ < n then c₁ else c₀) - n)], by simp [← h], ?_⟩
    intro l r hl
    rw [isTrue_equal_columns hside hl]
    simp
  | case3 keys lhs rhs ihl ihr =>
    obtain ⟨mid, hmid, h⟩ := bind_eq_some_iff.1 h
    exact (ihl hmid).and (ihr mid h) fun r => Expr.isTrue_logicalAnd ..
  | case4 keys lhs rhs ihl ihr =>
    obtain ⟨mid, hmid, h⟩ := bind_eq_some_iff.1 h
    exact (ihl hmid).and (ihr mid h) fun r => Expr.isTrue_nullLogicalAnd ..
  | case5 => simp at h

variable {nulls : NullEquality} {condition : Expr V} {l r : Table V}
  {left right : RelationProperties} {leftKeys rightKeys : List Nat}

lemma length_partners_left_le_one (hl : left.Hold nulls l)
    (h : isEquijoinPredicate l.numColumns condition ([], []) = some (leftKeys, rightKeys))
    (hcov : sideCovered left leftKeys) (y : Row V) :
    (l.rows.filter fun x => condition.IsTrue C τ (x ++ y)).length ≤ 1 := by
  obtain ⟨pairs, hkeys, htrue⟩ := pushesKeys_of_equijoin (C := C) (τ := τ) h
  obtain ⟨rfl, rfl⟩ := mk.inj hkeys
  obtain ⟨key, hkey, hsub⟩ : ∃ key ∈ left.uniqueKeys, ∀ c ∈ key, ∃ d, (c, d) ∈ pairs := by
    simpa [sideCovered] using hcov
  refine (hl key hkey).length_filter_le_one hsub y fun x hx hxy c d hp => ?_
  exact (htrue x y (l.length_row x hx)).1 (of_decide_eq_true hxy) _ hp

lemma length_partners_right_le_one (hr : right.Hold nulls r)
    (h : isEquijoinPredicate l.numColumns condition ([], []) = some (leftKeys, rightKeys))
    (hcov : sideCovered right rightKeys) {x : Row V} (hx : x ∈ l.rows) :
    (r.rows.filter fun y => condition.IsTrue C τ (x ++ y)).length ≤ 1 := by
  obtain ⟨pairs, hkeys, htrue⟩ := pushesKeys_of_equijoin (C := C) (τ := τ) h
  obtain ⟨rfl, rfl⟩ := mk.inj hkeys
  obtain ⟨key, hkey, hsub⟩ : ∃ key ∈ right.uniqueKeys, ∀ c ∈ key, ∃ d, (d, c) ∈ pairs := by
    simpa [sideCovered] using hcov
  refine (hr key hkey).length_filter_le_one hsub x fun y _ hxy c d hp => ?_
  exact ((htrue x y (l.length_row x hx)).1 (of_decide_eq_true hxy) _ hp).symm

omit [LinearOrder V] in
lemma markedPolicy_eq_some {joinType : JoinType} {policy : UniqueKeysPolicy}
    (h : markedPolicy condition joinType n left right = some policy) :
    ∃ leftKeys rightKeys, isEquijoinPredicate n condition ([], []) = some (leftKeys, rightKeys) ∧
      (policy = .left ∨ policy = .either → sideCovered left leftKeys) ∧
      (policy = .right ∨ policy = .either → sideCovered right rightKeys) := by
  unfold markedPolicy at h
  split_ifs at h
  obtain ⟨⟨leftKeys, rightKeys⟩, hkeys, h⟩ := bind_eq_some_iff.1 h
  refine ⟨leftKeys, rightKeys, hkeys, ?_⟩
  dsimp only at h
  split at h <;> simp_all <;> simp [← h]

/-- **Join policies.** In a join that the rule marks for an input, every row of the other input has
at most one partner there. -/
theorem partners_le_one_of_visitJoinPolicy {joinType : JoinType} {before policy : UniqueKeysPolicy}
    (hleft : left.Hold nulls l) (hright : right.Hold nulls r)
    (h : visitJoinPolicy condition joinType l.numColumns left right before false = (policy, true)) :
    (policy = .left ∨ policy = .either → ∀ y ∈ r.rows, (l.rows.filter fun x =>
      condition.IsTrue C (joinConditionTypes l r) (x ++ y)).length ≤ 1) ∧
    (policy = .right ∨ policy = .either → ∀ x ∈ l.rows,
      (joinMatches C condition l r x).length ≤ 1) := by
  have hmarked : markedPolicy condition joinType l.numColumns left right = some policy := by
    unfold visitJoinPolicy at h
    split at h
    · simpa [‹_ = some _›] using h
    · simp at h
  obtain ⟨leftKeys, rightKeys, hkeys, hl, hr⟩ := markedPolicy_eq_some hmarked
  constructor
  · intro hpolicy y _
    exact length_partners_left_le_one hleft hkeys (hl hpolicy) y
  · intro hpolicy x hx
    exact length_partners_right_le_one hright hkeys (hr hpolicy) hx

end

/-- The join condition `l.0 = r.0 AND r.1 = l.1`. -/
def bothColumns : Expr Int :=
  .binaryOp .nullLogicalAnd (.binaryOp .equal (.columnReference 0) (.columnReference 2))
    (.binaryOp .equal (.columnReference 3) (.columnReference 1))

/-- The two columns of the left input together are a key, and its NULLs match nothing. -/
theorem partners_le_one_bothColumns : let l : Table Int := ⟨[.int64, .int64],
      [[some 1, some 1], [some 1, some 2], [some 1, none], [some 1, none]], by simp, by simp⟩
    let r : Table Int := ⟨[.int64, .int64], [[some 1, some 2], [some 1, some 2], [some 1, none]],
      by simp, by simp⟩
    ∀ y ∈ r.rows, (l.rows.filter fun x =>
      bothColumns.IsTrue .integers (joinConditionTypes l r) (x ++ y)).length ≤ 1 := by
  intro l r
  have hleft : (RelationProperties.ofKeys [[0, 1]]).Hold .unequal l := by decide
  have hright : (∅ : RelationProperties).Hold .unequal r := by decide
  have h : visitJoinPolicy bothColumns .inner l.numColumns (.ofKeys [[0, 1]]) ∅ .none false =
      (.left, true) := by decide
  exact (partners_le_one_of_visitJoinPolicy hleft hright h).1 (.inl rfl)

/-! ### Collected pairs -/

section
variable [LinearOrder V] (C : Cudf V) (τ : Nat → DataType)

/-- A collected pair has a column of each input, with the same value if the condition is TRUE. -/
lemma valuesAgree_of_mem_pairs {n : Nat} {condition : Expr V} {p : Nat × Nat}
    (hp : p ∈ collectEquijoinPairs n condition) {w : Row V} (hw : condition.IsTrue C τ w) :
    (p.1 < n ∧ n ≤ p.2) ∧ ValuesAgree .unequal (w.col p.1) (w.col p.2) := by
  obtain ⟨d, hd, hsat⟩ := exists_satisfies C τ hw
  obtain ⟨hlt, hle, hmem⟩ := mem_disjunct_of_mem_pairs hp hd
  refine ⟨⟨hlt, hle⟩, ?_⟩
  rcases hmem with hmem | hmem
  · exact hsat _ hmem
  · exact (hsat _ hmem).symm

/-- The collected pairs hold of all joined rows, and a key that they cover allows for
one partner. -/
theorem collectEquijoinPairs_hold (condition : Expr V) (l r : Table V) :
    (∀ p ∈ collectEquijoinPairs l.numColumns condition, ∀ x ∈ l.rows, ∀ y ∈ r.rows,
      condition.IsTrue C τ (x ++ y) →
        ValuesAgree .unequal (x.col p.1) (y.col (p.2 - l.numColumns))) ∧
    (∀ nulls key, IsKey nulls l key →
      (∀ c ∈ key, c ∈ (collectEquijoinPairs l.numColumns condition).image fst) →
      ∀ y ∈ r.rows, (l.rows.filter fun x => condition.IsTrue C τ (x ++ y)).length ≤ 1) ∧
    (∀ nulls key, IsKey nulls r key → (∀ c ∈ key,
        c ∈ (collectEquijoinPairs l.numColumns condition).image fun p => p.2 - l.numColumns) →
      ∀ x ∈ l.rows, (r.rows.filter fun y => condition.IsTrue C τ (x ++ y)).length ≤ 1) := by
  have hpairs : ∀ p ∈ collectEquijoinPairs l.numColumns condition, ∀ x ∈ l.rows, ∀ y : Row V,
      condition.IsTrue C τ (x ++ y) →
        ValuesAgree .unequal (x.col p.1) (y.col (p.2 - l.numColumns)) := by
    intro p hp x hx y hxy
    obtain ⟨⟨hlt, hle⟩, h⟩ := valuesAgree_of_mem_pairs C τ hp hxy
    have hlen : x.length = l.numColumns := l.length_row x hx
    obtain ⟨d, hd⟩ := Nat.exists_eq_add_of_le hle
    rw [Row.col_append_left (hlen.symm ▸ hlt), hd, ← hlen, Row.col_append_right] at h
    rwa [hd, Nat.add_sub_cancel_left]
  refine ⟨fun p hp x hx y _ => hpairs p hp x hx y, fun nulls key hkey hcov y _ => ?_,
    fun nulls key hkey hcov x hx => ?_⟩
  · have hsub : ∀ c ∈ key, ∃ d, ∃ p ∈ collectEquijoinPairs l.numColumns condition,
        p.1 = c ∧ p.2 - l.numColumns = d := by simpa using hcov
    refine hkey.length_filter_le_one hsub y ?_
    rintro x hx hxy _ _ ⟨p, hp, rfl, rfl⟩
    exact hpairs p hp x hx y (of_decide_eq_true hxy)
  · have hsub : ∀ c ∈ key, ∃ d, ∃ p ∈ collectEquijoinPairs l.numColumns condition,
        p.2 - l.numColumns = c ∧ p.1 = d := by simpa using hcov
    refine hkey.length_filter_le_one hsub x ?_
    rintro y - hxy _ _ ⟨p, hp, rfl, rfl⟩
    exact (hpairs p hp x hx y (of_decide_eq_true hxy)).symm

end

end Gqe.Uniqueness
