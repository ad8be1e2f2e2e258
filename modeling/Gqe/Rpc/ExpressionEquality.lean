import Gqe.Rpc.Expressions

/-!
# Equality of expressions

Every class of expressions overrides `expression::operator==`. Expressions of different
`expression_type` are unequal; for the others, the class of the left operand casts the right one to
itself and compares members, then children from the left to the right.

A comparison goes wrong at three kinds of nodes only: functions of different classes, literals whose
values are equal although one of them is NULL, and literals whose values are unequal although both
are NULL. It is right or wrong as a whole by where these stand among the nodes that face each other.
-/

namespace Gqe.Rpc

open Expression

/-- `std::equal` on two lists: the second comparison is only made when the first one holds. A
comparison that throws `std::bad_cast` is `none`. -/
def andThen (first second : Option Bool) : Option Bool :=
  first.bind fun equal => if equal then second else some false

/-- The classes derived from `scalar_function_expression`. -/
def sameClass : ScalarFunction → ScalarFunction → Bool
  | .datepart _, .datepart _ | .like .., .like .. | .round _, .round _ | .substr .., .substr .. =>
    true
  | _, _ => false

/-! ### Values of literals -/

/-- The bits without the sign. -/
def magnitude {w : Nat} (bits : BitVec w) : Nat := bits.toNat % 2 ^ (w - 1)

/-- The exponent is all ones and the mantissa is not zero. -/
def isNan {w : Nat} (mantissaBits : Nat) (bits : BitVec w) : Bool :=
  2 ^ (w - 1) - 2 ^ mantissaBits < magnitude bits

/-- `==` of floating-point numbers: NaN is equal to nothing, and the two zeros are equal. -/
def floatsEqual {w : Nat} (mantissaBits : Nat) (a b : BitVec w) : Bool :=
  !isNan mantissaBits a && !isNan mantissaBits b &&
    (a = b || magnitude a = 0 && magnitude b = 0)

/-- `==` of the values of two literals of one type. -/
def valuesEqual : LiteralValue → LiteralValue → Bool
  | .float a, .float b => floatsEqual 23 a b
  | .double a, .double b => floatsEqual 52 a b
  | v, w => v = w

/-! ### The comparison -/

mutual

/-- The overrides of `expression::operator==`. -/
def Expression.equals : Expression → Expression → Option Bool
  | .columnReference i _, .columnReference j _ => some (i = j)
  | .literal v _, .literal w _ => some (v.dataType = w.dataType && valuesEqual v w)
  | .isNull e, .isNull f => e.equals f
  | .cast e outType, .cast f outType' =>
    if outType = outType' then e.equals f else some false
  | .binaryOp op lhs rhs, .binaryOp op' lhs' rhs' =>
    if op = op' then andThen (lhs.equals lhs') (rhs.equals rhs') else some false
  | .unaryOp op e, .unaryOp op' f => if op = op' then e.equals f else some false
  | .ifThenElse c t e, .ifThenElse c' t' e' =>
    andThen (c.equals c') (andThen (t.equals t') (e.equals e'))
  | .scalarFunction fn e, .scalarFunction fn' f =>
    -- the cast of the right operand throws for another class
    if sameClass fn fn' then if fn = fn' then e.equals f else some false else none
  | .inPredicate needles r, .inPredicate needles' r' =>
    if r = r' then
      if needles.length = needles'.length then equalsAll needles needles'
      else some false
    else some false
  | _, _ => some false

/-- `utility::compare_pointer_vectors`, after the lengths. -/
def Expression.equalsAll : List Expression → List Expression → Option Bool
  | e :: es, f :: fs => andThen (e.equals f) (equalsAll es fs)
  | _, _ => some true

end

mutual

/-- The same tree, up to the names of columns and the values of NULL literals. -/
def Expression.SameTree : Expression → Expression → Prop
  | .columnReference i _, .columnReference j _ => i = j
  | .literal v null, .literal w null' =>
    v.dataType = w.dataType ∧ null = null' ∧ (null = false → v = w)
  | .isNull e, .isNull f => e.SameTree f
  | .cast e outType, .cast f outType' => outType = outType' ∧ e.SameTree f
  | .binaryOp op lhs rhs, .binaryOp op' lhs' rhs' =>
    op = op' ∧ lhs.SameTree lhs' ∧ rhs.SameTree rhs'
  | .unaryOp op e, .unaryOp op' f => op = op' ∧ e.SameTree f
  | .ifThenElse c t e, .ifThenElse c' t' e' => c.SameTree c' ∧ t.SameTree t' ∧ e.SameTree e'
  | .scalarFunction fn e, .scalarFunction fn' f => fn = fn' ∧ e.SameTree f
  | .inPredicate needles r, .inPredicate needles' r' =>
    r = r' ∧ needles.length = needles'.length ∧ Expression.SameTrees needles needles'
  | _, _ => False

def Expression.SameTrees : List Expression → List Expression → Prop
  | e :: es, f :: fs => e.SameTree f ∧ Expression.SameTrees es fs
  | _, _ => True

end

/-! ### Nodes that face each other -/

mutual

/-- The pairs of nodes at the same place in two trees, in the order in which they are compared. -/
def Expression.facing (e f : Expression) : List (Expression × Expression) :=
  (e, f) :: match e, f with
    | .isNull e, .isNull f => e.facing f
    | .cast e _, .cast f _ => e.facing f
    | .unaryOp _ e, .unaryOp _ f => e.facing f
    | .scalarFunction _ e, .scalarFunction _ f => e.facing f
    | .binaryOp _ lhs rhs, .binaryOp _ lhs' rhs' => lhs.facing lhs' ++ rhs.facing rhs'
    | .ifThenElse c t e, .ifThenElse c' t' e' => c.facing c' ++ (t.facing t' ++ e.facing e')
    | .inPredicate needles _, .inPredicate needles' _ => Expression.facingAll needles needles'
    | _, _ => []

def Expression.facingAll : List Expression → List Expression → List (Expression × Expression)
  | e :: es, f :: fs => e.facing f ++ Expression.facingAll es fs
  | _, _ => []

end

/-- The same node, apart from the children. -/
def SameNode : Expression × Expression → Prop
  | (.columnReference i _, .columnReference j _) => i = j
  | (.literal v null, .literal w null') =>
    v.dataType = w.dataType ∧ null = null' ∧ (null = false → v = w)
  | (.isNull _, .isNull _) => True
  | (.cast _ outType, .cast _ outType') => outType = outType'
  | (.binaryOp op _ _, .binaryOp op' _ _) => op = op'
  | (.unaryOp op _, .unaryOp op' _) => op = op'
  | (.ifThenElse .., .ifThenElse ..) => True
  | (.scalarFunction fn _, .scalarFunction fn' _) => fn = fn'
  | (.inPredicate needles r, .inPredicate needles' r') =>
    r = r' ∧ needles.length = needles'.length
  | _ => False

/-- Functions of different classes. -/
def Clash : Expression × Expression → Prop
  | (.scalarFunction fn _, .scalarFunction fn' _) => sameClass fn fn' = false
  | _ => False

/-- Literals with equal values that are not the same: one is NULL, or they are zeros of
both signs. -/
def Confused : Expression × Expression → Prop
  | (.literal v null, .literal w null') =>
    v.dataType = w.dataType ∧ valuesEqual v w ∧ (null ≠ null' ∨ null = false ∧ v ≠ w)
  | _ => False

/-- The same literal with unequal values: NULLs with different values behind them, or NaN. -/
def Torn : Expression × Expression → Prop
  | (.literal v null, .literal w null') =>
    v.dataType = w.dataType ∧ valuesEqual v w = false ∧ null = null' ∧ (null = false → v = w)
  | _ => False

/-- The nodes differ in something that is compared. -/
def Distinct (p : Expression × Expression) : Prop := ¬SameNode p ∧ ¬Clash p ∧ ¬Confused p

/-- The comparison of two nodes without their children. -/
def nodesEqual : Expression × Expression → Option Bool
  | (.columnReference i _, .columnReference j _) => some (i = j)
  | (.literal v _, .literal w _) => some (v.dataType = w.dataType && valuesEqual v w)
  | (.isNull _, .isNull _) => some true
  | (.cast _ outType, .cast _ outType') => some (outType = outType')
  | (.binaryOp op _ _, .binaryOp op' _ _) => some (op = op')
  | (.unaryOp op _, .unaryOp op' _) => some (op = op')
  | (.ifThenElse .., .ifThenElse ..) => some true
  | (.scalarFunction fn _, .scalarFunction fn' _) =>
    if sameClass fn fn' then some (fn = fn') else none
  | (.inPredicate needles r, .inPredicate needles' r') =>
    some (r = r' && needles.length = needles'.length)
  | _ => some false

/-- The nodes are compared one after the other until two of them are unequal. -/
def allEqual (pairs : List (Expression × Expression)) : Option Bool :=
  pairs.foldr (fun p rest => andThen (nodesEqual p) rest) (some true)

@[simp] lemma andThen_some_true (c : Option Bool) : andThen (some true) c = c := rfl

@[simp] lemma andThen_some_false (c : Option Bool) : andThen (some false) c = some false := rfl

@[simp] lemma andThen_none (c : Option Bool) : andThen none c = none := rfl

@[simp] lemma andThen_true (c : Option Bool) : andThen c (some true) = c := by
  rcases c with _ | _ | _ <;> rfl

lemma andThen_assoc (b c d : Option Bool) : andThen (andThen b c) d = andThen b (andThen c d) := by
  rcases b with _ | _ | _ <;> rfl

@[simp] lemma allEqual_nil : allEqual [] = some true := rfl

@[simp] lemma allEqual_cons (p : Expression × Expression) (ps : List (Expression × Expression)) :
    allEqual (p :: ps) = andThen (nodesEqual p) (allEqual ps) := rfl

@[simp] lemma allEqual_append (ps qs : List (Expression × Expression)) :
    allEqual (ps ++ qs) = andThen (allEqual ps) (allEqual qs) := by
  induction ps with
  | nil => rfl
  | cons p ps ih => rw [List.cons_append, allEqual_cons, allEqual_cons, ih, andThen_assoc]

lemma andThen_decide (P : Prop) [Decidable P] (c : Option Bool) :
    andThen (some (decide P)) c = if P then c else some false := by
  split_ifs with h <;> simp [h]

mutual

/-- An expression is compared node by node. -/
lemma equals_eq_allEqual (e f : Expression) : e.equals f = allEqual (e.facing f) := by
  match e with
  | .columnReference .. => cases f <;> simp [equals, facing, nodesEqual]
  | .literal .. => cases f <;> simp [equals, facing, nodesEqual]
  | .isNull e =>
    cases f <;> simp only [equals, facing, allEqual_cons, nodesEqual, allEqual_nil]
    case isNull f => exact equals_eq_allEqual e f
    all_goals rfl
  | .cast e _ =>
    cases f <;> simp only [equals, facing, allEqual_cons, nodesEqual, allEqual_nil, andThen_decide]
    case cast f _ => rw [equals_eq_allEqual e f]
    all_goals rfl
  | .unaryOp _ e =>
    cases f <;> simp only [equals, facing, allEqual_cons, nodesEqual, allEqual_nil, andThen_decide]
    case unaryOp _ f => rw [equals_eq_allEqual e f]
    all_goals rfl
  | .binaryOp _ lhs rhs =>
    cases f <;> simp only [equals, facing, allEqual_cons, nodesEqual, allEqual_nil, andThen_decide]
    case binaryOp _ lhs' rhs' =>
      rw [equals_eq_allEqual lhs lhs', equals_eq_allEqual rhs rhs', allEqual_append]
    all_goals rfl
  | .ifThenElse c t e =>
    cases f <;> simp only [equals, facing, allEqual_cons, nodesEqual, allEqual_nil]
    case ifThenElse c' t' e' =>
      rw [equals_eq_allEqual c c', equals_eq_allEqual t t', equals_eq_allEqual e e',
        allEqual_append, allEqual_append, andThen_some_true]
    all_goals rfl
  | .scalarFunction fn e =>
    cases f <;> simp only [equals, facing, allEqual_cons, nodesEqual, allEqual_nil]
    case scalarFunction fn' f =>
      rw [equals_eq_allEqual e f]
      cases sameClass fn fn' with
      | false => rfl
      | true => exact (andThen_decide _ _).symm
    all_goals rfl
  | .inPredicate needles r =>
    cases f <;> simp only [equals, facing, allEqual_cons, nodesEqual, allEqual_nil]
    case inPredicate needles' r' =>
      rw [equalsAll_eq_allEqual needles needles', ← Bool.decide_and, andThen_decide, ite_and]
    all_goals rfl

lemma equalsAll_eq_allEqual (es fs : List Expression) :
    equalsAll es fs = allEqual (facingAll es fs) := by
  match es, fs with
  | e :: es, f :: fs =>
    rw [equalsAll, facingAll, allEqual_append, equals_eq_allEqual e f, equalsAll_eq_allEqual es fs]
  | [], _ => simp [equalsAll, facingAll]
  | _ :: _, [] => simp [equalsAll, facingAll]

end

mutual

/-- Trees are the same if all nodes that face each other are. -/
lemma sameTree_iff (e f : Expression) : e.SameTree f ↔ ∀ p ∈ e.facing f, SameNode p := by
  match e with
  | .columnReference .. => cases f <;> simp [SameTree, facing, SameNode]
  | .literal .. => cases f <;> simp [SameTree, facing, SameNode]
  | .isNull e => cases f <;> simp [SameTree, facing, SameNode, sameTree_iff e]
  | .cast e _ => cases f <;> simp [SameTree, facing, SameNode, sameTree_iff e]
  | .unaryOp _ e => cases f <;> simp [SameTree, facing, SameNode, sameTree_iff e]
  | .scalarFunction _ e => cases f <;> simp [SameTree, facing, SameNode, sameTree_iff e]
  | .binaryOp _ lhs rhs =>
    cases f <;> simp only [SameTree, facing, List.forall_mem_cons, SameNode, List.forall_mem_append,
      sameTree_iff lhs, sameTree_iff rhs, false_and]
  | .ifThenElse c t e =>
    cases f <;> simp only [SameTree, facing, List.forall_mem_cons, SameNode, List.forall_mem_append,
      sameTree_iff c, sameTree_iff t, sameTree_iff e, false_and, true_and]
  | .inPredicate needles _ =>
    cases f <;> simp only [SameTree, facing, List.forall_mem_cons, SameNode, sameTrees_iff needles,
      false_and, and_assoc]

lemma sameTrees_iff (es fs : List Expression) :
    SameTrees es fs ↔ ∀ p ∈ facingAll es fs, SameNode p := by
  match es, fs with
  | e :: es, f :: fs =>
    rw [SameTrees, facingAll, List.forall_mem_append, sameTree_iff e f, sameTrees_iff es fs]
  | [], _ => simp [SameTrees, facingAll]
  | _ :: _, [] => simp [SameTrees, facingAll]

end

/-! ### Comparisons that decide -/

/-- The comparison returns, and its value says whether `P` holds. -/
def Decides (comparison : Option Bool) (P : Prop) : Prop :=
  ∃ b, comparison = some b ∧ (b = true ↔ P)

section Nodes

variable {p : Expression × Expression}

lemma sameClass_self (fn : ScalarFunction) : sameClass fn fn := by
  cases fn <;> rfl

lemma nodesEqual_eq_none_iff : nodesEqual p = none ↔ Clash p := by
  obtain ⟨e, f⟩ := p
  cases e <;> cases f <;> simp [nodesEqual, Clash]

/-- Nodes are found equal if they are the same, with equal values, or are confused. -/
lemma nodesEqual_eq_true_iff : nodesEqual p = some true ↔ SameNode p ∧ ¬Torn p ∨ Confused p := by
  obtain ⟨e, f⟩ := p
  cases e <;> cases f <;> simp [nodesEqual, SameNode, Confused, Torn]
  case literal.literal v null w null' =>
    cases valuesEqual v w with
    | false =>
      simp only [Bool.false_eq_true, and_false, false_and, or_false, false_iff]
      tauto
    | true =>
      simp only [and_true, true_and]
      tauto
  case scalarFunction.scalarFunction fn _ fn' _ =>
    rintro rfl
    exact sameClass_self fn

lemma Confused.not_sameNode (h : Confused p) : ¬SameNode p := by
  obtain ⟨e, f⟩ := p
  cases e <;> cases f <;> simp only [Confused] at h
  case literal.literal v null w null' =>
    rintro ⟨-, hnull, hvalue⟩
    exact h.2.2.elim (· hnull) fun hne => hne.2 (hvalue hne.1)

lemma Torn.sameNode (h : Torn p) : SameNode p := by
  obtain ⟨e, f⟩ := p
  cases e <;> cases f <;> simp only [Torn] at h
  case literal.literal => exact ⟨h.1, h.2.2⟩

lemma Clash.not_sameNode (h : Clash p) : ¬SameNode p := by
  obtain ⟨e, f⟩ := p
  cases e <;> cases f <;> simp only [Clash] at h
  case scalarFunction.scalarFunction fn _ fn' _ =>
    intro hsame
    obtain rfl : fn = fn' := hsame
    rw [sameClass_self] at h
    cases h

/-- Nodes are found unequal if they differ in something that is compared, or are torn. -/
lemma nodesEqual_eq_false_iff : nodesEqual p = some false ↔ Distinct p ∨ Torn p := by
  rcases hp : nodesEqual p with _ | _ | _
  · have hclash := nodesEqual_eq_none_iff.1 hp
    have htorn : ¬Torn p := fun h => hclash.not_sameNode h.sameNode
    simp [Distinct, hclash, htorn]
  · simp only [true_iff]
    have hclash : ¬Clash p := fun h => by simp [nodesEqual_eq_none_iff.2 h] at hp
    have htrue : ¬(SameNode p ∧ ¬Torn p ∨ Confused p) := fun h => by
      simp [nodesEqual_eq_true_iff.2 h] at hp
    by_cases htorn : Torn p
    · exact .inr htorn
    · simp only [htorn, not_false_eq_true, and_true, not_or] at htrue
      exact .inl ⟨htrue.1, hclash, htrue.2⟩
  · simp only [Option.some.injEq, Bool.true_eq_false, false_iff, not_or]
    rcases nodesEqual_eq_true_iff.1 hp with ⟨hsame, htorn⟩ | hconfused
    · exact ⟨fun h => h.1 hsame, htorn⟩
    · exact ⟨fun h => h.2.2 hconfused, fun h => hconfused.not_sameNode h.sameNode⟩

end Nodes

/-- Where functions of different classes face each other, nodes before them differ in something that
is compared, or are torn. -/
def ClashesAreHidden (pairs : List (Expression × Expression)) : Prop :=
  ∀ before p after, pairs = before ++ p :: after → Clash p → ∃ q ∈ before, Distinct q ∨ Torn q

section Pairs

variable {pairs : List (Expression × Expression)}

lemma clashesAreHidden_cons {p : Expression × Expression} : ClashesAreHidden (p :: pairs) ↔
    ¬Clash p ∧ ((Distinct p ∨ Torn p) ∨ ClashesAreHidden pairs) := by
  constructor
  · intro h
    have hclash : ¬Clash p := fun hp => by simpa using h [] p pairs rfl hp
    refine ⟨hclash, or_iff_not_imp_left.2 ?_⟩
    rintro hstop before q after rfl hq
    obtain ⟨r, hr, hrstop⟩ := h (p :: before) q after rfl hq
    rcases List.mem_cons.1 hr with rfl | hr
    · exact absurd hrstop hstop
    · exact ⟨r, hr, hrstop⟩
  · rintro ⟨hclash, hrest⟩ before q after heq hq
    cases before with
    | nil =>
      obtain ⟨rfl, -⟩ := List.cons.inj heq
      exact absurd hq hclash
    | cons r before =>
      obtain ⟨rfl, rfl⟩ := List.cons.inj heq
      rcases hrest with hstop | hrest
      · exact ⟨p, List.mem_cons_self, hstop⟩
      · obtain ⟨r, hr, hrstop⟩ := hrest before q after rfl hq
        exact ⟨r, List.mem_cons_of_mem _ hr, hrstop⟩

/-- The comparison returns if no functions of different classes are reached. -/
lemma allEqual_ne_none_iff : allEqual pairs ≠ none ↔ ClashesAreHidden pairs := by
  induction pairs with
  | nil => simp [ClashesAreHidden]
  | cons p ps ih =>
    rw [allEqual_cons, clashesAreHidden_cons, ← ih, ← nodesEqual_eq_none_iff,
      ← nodesEqual_eq_false_iff]
    rcases nodesEqual p with _ | _ | _ <;> simp

lemma allEqual_eq_true_iff :
    allEqual pairs = some true ↔ ∀ p ∈ pairs, nodesEqual p = some true := by
  induction pairs with
  | nil => simp
  | cons p ps ih =>
    rw [allEqual_cons, List.forall_mem_cons, ← ih]
    rcases nodesEqual p with _ | _ | _ <;> simp

lemma exists_of_allEqual_eq_false (h : allEqual pairs = some false) :
    ∃ q ∈ pairs, Distinct q ∨ Torn q := by
  induction pairs with
  | nil => cases h
  | cons p ps ih =>
    rw [allEqual_cons] at h
    by_cases hp : nodesEqual p = some true
    · rw [hp, andThen_some_true] at h
      obtain ⟨q, hq, hstop⟩ := ih h
      exact ⟨q, List.mem_cons_of_mem _ hq, hstop⟩
    · refine ⟨p, List.mem_cons_self, nodesEqual_eq_false_iff.1 ?_⟩
      rcases hnodes : nodesEqual p with _ | _ | _ <;> simp_all

/-- Once the comparison returns, its value is right if literals that are confused or torn do not
decide it. -/
lemma allEqual_eq_true_iff_sameNode (hreturns : allEqual pairs ≠ none) :
    (allEqual pairs = some true ↔ ∀ p ∈ pairs, SameNode p) ↔
      ((∃ p ∈ pairs, Confused p) → ∃ q ∈ pairs, Distinct q ∨ Torn q) ∧
      ((∃ p ∈ pairs, Torn p) → ∃ q ∈ pairs, ¬SameNode q) := by
  constructor
  · intro h
    constructor
    · rintro ⟨p, hp, hconfused⟩
      apply exists_of_allEqual_eq_false
      have hfalse : allEqual pairs ≠ some true := fun htrue =>
        hconfused.not_sameNode (h.1 htrue p hp)
      rcases hall : allEqual pairs with _ | _ | _ <;> simp_all
    · rintro ⟨p, hp, htorn⟩
      by_contra! hsame
      have htrue := allEqual_eq_true_iff.1 (h.2 hsame) p hp
      rw [nodesEqual_eq_false_iff.2 (.inr htorn)] at htrue
      cases htrue
  · rintro ⟨hconfused, htorn⟩
    rw [allEqual_eq_true_iff]
    constructor
    · intro hequal p hp
      rcases nodesEqual_eq_true_iff.1 (hequal p hp) with ⟨hsame, -⟩ | hp'
      · exact hsame
      · obtain ⟨q, hq, hstop⟩ := hconfused ⟨p, hp, hp'⟩
        have hq' := hequal q hq
        rw [nodesEqual_eq_false_iff.2 hstop] at hq'
        cases hq'
    · intro hsame p hp
      refine nodesEqual_eq_true_iff.2 (.inl ⟨hsame p hp, fun hp' => ?_⟩)
      obtain ⟨q, hq, hne⟩ := htorn ⟨p, hp, hp'⟩
      exact hne (hsame q hq)

end Pairs

lemma decides_iff {c : Option Bool} {P : Prop} : Decides c P ↔ c ≠ none ∧ (c = some true ↔ P) := by
  rcases c with _ | _ | _ <;> simp [Decides]

/-- Two expressions are compared rightly if and only if no functions of different classes are
reached, and neither literals that are confused nor literals that are torn decide. -/
theorem decides_equals_iff (e f : Expression) :
    Decides (e.equals f) (e.SameTree f) ↔ ClashesAreHidden (e.facing f) ∧
      ((∃ p ∈ e.facing f, Confused p) → ∃ q ∈ e.facing f, Distinct q ∨ Torn q) ∧
      ((∃ p ∈ e.facing f, Torn p) → ∃ q ∈ e.facing f, ¬SameNode q) := by
  rw [decides_iff, equals_eq_allEqual, sameTree_iff, ← allEqual_ne_none_iff]
  exact and_congr_right fun hreturns => allEqual_eq_true_iff_sameNode hreturns

/-- The NULL literal equals zero, and `a LIKE '%'` cannot be compared with `SUBSTR(a, 0, 1)`. -/
theorem equals_nullLiteral_and_like :
    equals (.literal (.int64 0) true) (.literal (.int64 0) false) = some true ∧
    ¬Expression.SameTree (.literal (.int64 0) true) (.literal (.int64 0) false) ∧
    equals (.scalarFunction (.like "%" "" false) (.columnReference 0 "a"))
      (.scalarFunction (.substr 0 1) (.columnReference 0 "a")) = none :=
  ⟨rfl, fun h => Bool.noConfusion h.2.1, rfl⟩

end Gqe.Rpc
