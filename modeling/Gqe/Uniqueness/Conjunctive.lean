import Gqe.Uniqueness.Join

/-!
# Keys of inner joins on conjunctions

Without disjunction, the recorded keys hold if the columns of a key of the other input are linked by
equalities to the input whose keys are propagated. An equality of the two inputs does so, but the
rule also propagates for an equality of two columns of the same input.
-/

namespace Gqe.Uniqueness

open Relation List

variable {V : Type*}

/-- An equality of two columns of the other input, one of which is a key by itself. -/
def HasSameSideKey (other : Nat → Prop) (keys : List (List Nat)) (condition : Expr V) : Prop :=
  ∃ e ∈ conjuncts condition, other e.1 ∧ other e.2 ∧ HasKeyColumn keys e

/-- If the condition has an equality of two columns of the other input with a key column, and a key
of an input has all its columns in the output, then all columns of some key of the other input are
linked to the input. -/
def LinkJustified (condition : Expr V) (p : List Nat) (n : Nat) (left right : RelationProperties) :
    Prop :=
  (HasSameSideKey (n ≤ ·) (shiftKeys n right.uniqueKeys) condition →
    (∃ key ∈ left.uniqueKeys, ∀ c ∈ key, c ∈ p) →
      ∃ key ∈ shiftKeys n right.uniqueKeys, ∀ c ∈ key,
        Linked (fun c => decide (c < n)) condition c) ∧
  (HasSameSideKey (· < n) left.uniqueKeys condition →
    (∃ key ∈ shiftKeys n right.uniqueKeys, ∀ c ∈ key, c ∈ p) →
      ∃ key ∈ left.uniqueKeys, ∀ c ∈ key, Linked (fun c => decide (n ≤ c)) condition c)

section
variable {condition : Expr V} {p : List Nat} {n : Nat} {left right : RelationProperties}

/-- An equality with a key column compares it with a column of the same input, or links it to the
other one. -/
lemma everyDisjunct_hasKeyColumn (h : orFree condition) {shared : Nat → Bool} {other : Nat → Prop}
    {keys : List (List Nat)} (hother : ∀ c, other c ↔ shared c = false)
    (hkeys : ∀ key ∈ keys, ∀ c ∈ key, other c)
    (hevery : EveryDisjunct (HasKeyColumn keys) condition) : HasSameSideKey other keys condition ∨
      ∃ key ∈ keys, ∀ c ∈ key, Linked shared condition c := by
  obtain ⟨e, he, hkey⟩ := hevery (conjuncts condition) (by simp [disjuncts_of_orFree h])
  by_cases hsame : other e.1 ∧ other e.2
  · exact .inl ⟨e, he, hsame.1, hsame.2, hkey⟩
  right
  rcases hkey with hkey | hkey
  · have hshared : shared e.2 := by
      have := fun h₂ => hsame ⟨hkeys _ hkey e.1 mem_cons_self, (hother _).2 h₂⟩
      simpa using this
    exact ⟨[e.1], hkey, by simpa using ⟨e.2, hshared, .rel _ _ he⟩⟩
  · have hshared : shared e.1 := by
      have := fun h₁ => hsame ⟨(hother _).2 h₁, hkeys _ hkey e.2 mem_cons_self⟩
      simpa using this
    exact ⟨[e.2], hkey, by simpa using ⟨e.1, hshared, .symm _ _ (.rel _ _ he)⟩⟩

lemma HasSameSideKey.everyDisjunct (h : orFree condition) {other : Nat → Prop}
    {keys : List (List Nat)} (hsame : HasSameSideKey other keys condition) :
    EveryDisjunct (HasKeyColumn keys) condition := by
  obtain ⟨e, he, -, -, hkey⟩ := hsame
  intro d hd
  rw [disjuncts_of_orFree h, mem_singleton] at hd
  exact ⟨e, hd ▸ he, hkey⟩

lemma justified_iff_link (h : orFree condition)
    (hl : ∀ key ∈ left.uniqueKeys, ∀ c ∈ key, c < n) :
    Justified condition p n left right ↔ LinkJustified condition p n left right := by
  have hr : ∀ key ∈ shiftKeys n right.uniqueKeys, ∀ c ∈ key, n ≤ c := by simp [shiftKeys]
  rw [Justified, LinkJustified, forcesKey_iff_linked h (by simpa using hr),
    forcesKey_iff_linked h (by simpa using hl)]
  constructor
  · exact fun hj => ⟨fun hsame => hj.1 (hsame.everyDisjunct h),
      fun hsame => hj.2 (hsame.everyDisjunct h)⟩
  · refine fun hj => ⟨fun hevery hp => ?_, fun hevery hp => ?_⟩
    · exact (everyDisjunct_hasKeyColumn h (by simp) hr hevery).elim (hj.1 · hp) id
    · exact (everyDisjunct_hasKeyColumn h (by simp) hl hevery).elim (hj.2 · hp) id

end

/-! ### Soundness -/

section
variable [LinearOrder V] {nulls : NullEquality} {C : Cudf V} {condition : Expr V} {p : List Nat}
  {leftTypes rightTypes : List DataType} {left right : RelationProperties}

lemma LinkJustified.keysHold (horFree : orFree condition)
    (h : LinkJustified condition p leftTypes.length left right) :
    InnerJoinKeysHold nulls C condition p leftTypes rightTypes left right := by
  intro l r hl hr hL hR
  have hlt : ∀ key ∈ left.uniqueKeys, ∀ c ∈ key, c < leftTypes.length :=
    fun key hkey c hc => hl ▸ (hL key hkey).lt_numColumns c hc
  exact ((justified_iff_link horFree hlt).2 h).keysHold l r hl hr hL hR

/-- **Conjunctive conditions.** The keys recorded for an inner join without disjunction hold if the
propagation is justified by links, and only then if the condition consists of equalities. -/
theorem innerJoinKeysHold_of_orFree [Infinite V] (horFree : orFree condition) :
    (LinkJustified condition p leftTypes.length left right →
      InnerJoinKeysHold nulls C condition p leftTypes rightTypes left right) ∧
    (IsFormula (fun _ _ => True) condition → InRange condition leftTypes rightTypes left right →
      InnerJoinKeysHold nulls C condition p leftTypes rightTypes left right →
      LinkJustified condition p leftTypes.length left right) :=
  ⟨fun h => h.keysHold horFree, fun hcondition hrange h =>
    (justified_iff_link horFree hrange.left_keys).1
      (justified_of_keysHold hcondition hrange h)⟩

end

/-- The join condition `l.0 = l.1`. -/
def sameSide : Expr Int := .binaryOp .equal (.columnReference 0) (.columnReference 1)

/-- The join condition `l.0 = l.1 AND l.1 = r.0`. -/
def sameSideLinked : Expr Int :=
  .binaryOp .nullLogicalAnd sameSide (.binaryOp .equal (.columnReference 1) (.columnReference 2))

theorem innerJoinKeysHold_sameSideLinked :
    InnerJoinKeysHold .unequal .integers sameSideLinked [0, 1, 2, 3] [.int64, .int64]
      [.int64, .int64] eachColumn eachColumn := by
  refine (innerJoinKeysHold_of_orFree (by decide)).1 ⟨fun hsame => ?_, fun _ _ => ?_⟩
  · obtain ⟨e, he, h₁, h₂, -⟩ := hsame
    rcases mem_pair.1 he with rfl | rfl <;> simp at h₁
  · have hlink : Linked (fun c => decide (2 ≤ c)) sameSideLinked 0 :=
      ⟨2, rfl, .trans 0 1 2 (.rel _ _ (by decide)) (.rel _ _ (by decide))⟩
    exact ⟨[0], by decide, by simpa using hlink⟩

/-- Both left rows satisfy the condition with the only right row. -/
theorem sameSide_breaks_key : let l := twoColumns [[some 1, some 1], [some 2, some 2]] (by simp)
    let r := twoColumns [[some 5, some 6]] (by simp)
    eachColumn.Hold .unequal l ∧ eachColumn.Hold .unequal r ∧
      ¬ (RelationProperties.ofKeys (visitJoin sameSide .inner [0, 1, 2, 3] 2 eachColumn
        eachColumn)).Hold .unequal (l.join .integers sameSide .inner [0, 1, 2, 3] r) := by
  refine ⟨by decide, by decide, fun h => ?_⟩
  have hout : [2] ∈ visitJoin sameSide .inner [0, 1, 2, 3] 2 eachColumn eachColumn :=
    mem_visitJoin_inner.2 (.inr ⟨by decide, [2], by decide, .cons rfl .nil⟩)
  exact absurd (hold_ofKeys.1 h [2] hout (by simp)) (by decide)

end Gqe.Uniqueness
