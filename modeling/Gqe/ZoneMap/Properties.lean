import Gqe.ZoneMap.Basic
import Mathlib.Data.List.ReduceOption
import Mathlib.Order.MinMax
import Mathlib.Tactic.Order

/-!
# Zone filters

The filters the transformer handles, what it keeps of them, and how the kept filter behaves on
the statistics of a set of rows. The kept filter is evaluated under a polarity: outside of
negations it must be TRUE on the statistics as soon as it is TRUE on one row, beneath an odd
number of negations it must be FALSE as soon as it is FALSE on one row.
-/

namespace Gqe.ZoneMap

open ThreeValued List Comparison Option

variable {V : Type*}

/-! ### The filters that are handled -/

def IsComparison (op : BinaryOp) : Prop :=
  op = .equal ∨ op = .less ∨ op = .lessEqual ∨ op = .greater ∨ op = .greaterEqual

instance (op : BinaryOp) : Decidable (IsComparison op) := inferInstanceAs (Decidable (_ ∨ _))

/-- The literals the transformer keeps. -/
def isSupportedLiteral : DataType → Bool
  | .int8 | .int32 | .float64 | .timestampDays | .string => true
  | _ => false

/-- An expression in the position of a condition that the transformer ignores. -/
def IsIgnored (e : Expr V) : Prop :=
  ∀ neg, visit e { insideNegation := neg } = .ok none

/-- A comparison of a column with another operand, the column on the given side. -/
def columnComparison (op : BinaryOp) (side : Side) (i : Nat) (e : Expr V) : Expr V :=
  match side with
  | .lhs => .binaryOp op (.columnReference i) e
  | .rhs => .binaryOp op e (.columnReference i)

/-- Comparisons of columns with literals, in either order, under AND, OR and NOT, with ignored
subexpressions, for a table with `n` columns. -/
inductive IsFilter (n : Nat) : Expr V → Prop
  | comparison {op side i t v null} : IsComparison op → i < n → isSupportedLiteral t →
      IsFilter n (columnComparison op side i (.literal t v null))
  | and {a b} : IsFilter n a → IsFilter n b → IsFilter n (.binaryOp .nullLogicalAnd a b)
  | or {a b} : IsFilter n a → IsFilter n b → IsFilter n (.binaryOp .nullLogicalOr a b)
  | not {a} : IsFilter n a → IsFilter n (.unaryOp .not a)
  | ignored {e} : IsIgnored e → IsFilter n e

variable {op : BinaryOp} {t : DataType} {v : V} {e : Expr V} {neg : Bool}
  {o : Option (ArrowExpr V)} {l : List (Option V)}

lemma IsFilter.columnLiteral {n i : Nat} {null : Bool}
    (hop : IsComparison op) (hi : i < n) (ht : isSupportedLiteral t) :
    IsFilter n (.binaryOp op (.columnReference i) (.literal t v null)) :=
  @comparison V n op .lhs i t v null hop hi ht

lemma IsFilter.literalColumn {n i : Nat} {null : Bool}
    (hop : IsComparison op) (hi : i < n) (ht : isSupportedLiteral t) :
    IsFilter n (.binaryOp op (.literal t v null) (.columnReference i)) :=
  @comparison V n op .rhs i t v null hop hi ht

/-! ### What is kept of a filter -/

/-- A filter that can be evaluated on statistics. -/
inductive ZoneFilter (V : Type*) where
  | comparison (op : Comparison) (side : Side) (columnIdx : Nat) (value : V)
  | and (a b : ZoneFilter V)
  | or (a b : ZoneFilter V)
  | not (a : ZoneFilter V)

/-- An AND is kept as soon as one operand is. -/
def keptAnd : Option (ZoneFilter V) → Option (ZoneFilter V) → Option (ZoneFilter V)
  | some a, some b => some (.and a b)
  | some a, none => some a
  | none, b => b

variable {f : ZoneFilter V}

lemma keptAnd_eq_some {a b : Option (ZoneFilter V)} (h : keptAnd a b = some f) :
    (∃ g k, a = some g ∧ b = some k ∧ f = .and g k) ∨ (a = some f ∧ b = none) ∨
      (a = none ∧ b = some f) := by
  cases a <;> cases b <;> simp_all [keptAnd]

/-- What is kept of a comparison with a literal; its NULL flag is not looked at. -/
def keptComparison (op : BinaryOp) (side : Side) (i : Nat) (t : DataType) (v : V) :
    Option (ZoneFilter V) :=
  if isSupportedLiteral t then
    match op with
    | .less         => some (.comparison .less side i v)
    | .lessEqual    => some (.comparison .lessEqual side i v)
    | .greater      => some (.comparison .greater side i v)
    | .greaterEqual => some (.comparison .greaterEqual side i v)
    | .equal        => some (.and (.comparison .lessEqual side i v)
                          (.comparison .greaterEqual side i v))
    | _ => none
  else none

/-- What remains of a filter when the operands that are not supported are dropped: an AND loses
such an operand, an OR with such an operand is dropped as a whole. -/
def kept : Expr V → Option (ZoneFilter V)
  | .binaryOp op a b =>
    match op with
    | .nullLogicalAnd => keptAnd (kept a) (kept b)
    | .nullLogicalOr => map₂ .or (kept a) (kept b)
    | _ =>
      match a, b with
      | .columnReference i, .literal t v _ => keptComparison op .lhs i t v
      | .literal t v _, .columnReference i => keptComparison op .rhs i t v
      | _, _ => none
  | .unaryOp op a => if op = .not then (kept a).map .not else none
  | _ => none

namespace ZoneFilter

@[simp] def columns : ZoneFilter V → List Nat
  | .comparison _ _ i _ => [i]
  | .and a b => a.columns ++ b.columns
  | .or a b => a.columns ++ b.columns
  | .not a => a.columns

/-- The statistic a comparison reads: the maximum if the operator, the side of the column and the
polarity swap the two an odd number of times. -/
def usesMax (op : Comparison) (side : Side) (neg : Bool) : Bool :=
  ((op = .greater || op = .greaterEqual) ^^ decide (side = .rhs)) ^^ neg

def statistic (op : Comparison) (side : Side) (neg : Bool) (i : Nat) : String :=
  toString (if usesMax op side neg then 2 * i + 1 else 2 * i)

/-- The arrow expression for a filter under the given polarity. -/
@[simp] def toArrow (neg : Bool) : ZoneFilter V → ArrowExpr V
  | .comparison op side i v =>
    match side with
    | .lhs => .compare op (.fieldRef (statistic op side neg i)) (.literal v)
    | .rhs => .compare op (.literal v) (.fieldRef (statistic op side neg i))
  | .and a b => .and (a.toArrow neg) (b.toArrow neg)
  | .or a b => .or (a.toArrow neg) (b.toArrow neg)
  | .not a => .invert (a.toArrow !neg)

end ZoneFilter

open ZoneFilter

/-! ### What a visit produces -/

lemma visitColumnReference_eq (op : Comparison) (side : Side) (neg : Bool) (i : Nat) :
    visitColumnReference (V := V) i
      { currentComparison := some op, side := side, insideNegation := neg } =
      .ok (some (.fieldRef (statistic op side neg i))) := by
  cases op <;> cases side <;> cases neg <;> rfl

lemma visitLiteral_eq (ht : isSupportedLiteral t) (v : V) (st : VisitState) :
    visitLiteral t v st = .ok (some (.literal v)) := by
  cases t <;> first | rfl | simp [isSupportedLiteral] at ht

lemma visitAnd_eq_ok {l r : Visitor V} {st : VisitState} :
    visitAndExpression l r st = .ok o ↔ ∃ x y, l st = .ok x ∧ r st = .ok y ∧ o = match x, y with
        | some x, some y => some (.and x y)
        | some x, none => some x
        | none, y => y := by
  unfold visitAndExpression
  cases l st with
  | error m => simp [bind, Except.bind]
  | ok x =>
    cases r st with
    | error m => simp [bind, Except.bind]
    | ok y => cases x <;> cases y <;> simp [bind, Except.bind, pure, Except.pure, eq_comm]

lemma visitOr_eq_ok {l r : Visitor V} {st : VisitState} :
    visitOrExpression l r st = .ok o ↔ ∃ x y, l st = .ok x ∧ r st = .ok y ∧ o = map₂ .or x y := by
  unfold visitOrExpression
  cases l st with
  | error m => simp [bind, Except.bind]
  | ok x =>
    cases r st with
    | error m => simp [bind, Except.bind]
    | ok y => cases x <;> cases y <;> simp [bind, Except.bind, pure, Except.pure, eq_comm]

lemma visit_not_eq_ok {a : Expr V} : visit (.unaryOp .not a) { insideNegation := neg } = .ok o ↔
      ∃ x, visit a { insideNegation := !neg } = .ok x ∧ o = x.map .invert := by
  cases h : visit a { insideNegation := !neg } <;>
    simp [visit, h, bind, Except.bind, pure, Except.pure, eq_comm]

lemma kept_columnComparison (hop : IsComparison op) (side : Side) (i : Nat)
    (t : DataType) (v : V) (null : Bool) :
    kept (columnComparison op side i (.literal t v null)) = keptComparison op side i t v := by
  rcases hop with rfl | rfl | rfl | rfl | rfl <;> cases side <;> rfl

lemma visit_columnComparison (hop : IsComparison op)
    (ht : isSupportedLiteral t) (side : Side) (neg : Bool) (i : Nat) (v : V) (null : Bool) :
    visit (columnComparison op side i (.literal t v null)) { insideNegation := neg } =
      .ok ((keptComparison op side i t v).map (toArrow neg)) := by
  rcases hop with rfl | rfl | rfl | rfl | rfl <;> cases side <;>
    simp [columnComparison, visit, visitEqualExpression, visitAndExpression,
      visitComparisonExpression, visitColumnReference_eq, visitLiteral_eq ht, keptComparison, ht,
        bind, Except.bind, pure, Except.pure]

lemma keptComparison_of_visit (hop : IsComparison op) (side : Side)
    (i : Nat) (t : DataType) (v : V) (null : Bool)
    (h : visit (columnComparison op side i (.literal t v null)) { insideNegation := neg } =
      .ok none) : keptComparison op side i t v = none := by
  by_cases ht : isSupportedLiteral t
  · rw [visit_columnComparison hop ht] at h
    simpa using h
  · simp [keptComparison, ht]

/-- Of a filter that the transformer ignores nothing is kept. -/
lemma kept_of_visit : ∀ (e : Expr V) (neg : Bool),
    visit e { insideNegation := neg } = .ok none → kept e = none
  | .binaryOp op a b, neg, h => by
    cases op with
    | nullLogicalAnd =>
      obtain ⟨x, y, hx, hy, ho⟩ := visitAnd_eq_ok.1 h
      cases x with
      | some x => cases y <;> cases ho
      | none =>
        obtain rfl : y = none := ho.symm
        simp [kept, keptAnd, kept_of_visit a neg hx, kept_of_visit b neg hy]
    | nullLogicalOr =>
      obtain ⟨x, y, hx, hy, ho⟩ := visitOr_eq_ok.1 h
      rcases map₂_eq_none_iff.1 ho.symm with rfl | rfl
      · simp [kept, kept_of_visit a neg hx]
      · simp [kept, kept_of_visit b neg hy]
    | equal | less | lessEqual | greater | greaterEqual =>
      -- the operands are a column and a literal, or nothing is kept
      simp only [kept]
      split
      · exact keptComparison_of_visit (by simp [IsComparison]) .lhs _ _ _ _ h
      · exact keptComparison_of_visit (by simp [IsComparison]) .rhs _ _ _ _ h
      · rfl
    | _ =>
      simp only [kept, keptComparison, ite_self]
      split <;> rfl
  | .unaryOp op a, neg, h => by
    by_cases hop : op = .not
    · subst hop
      obtain ⟨x, hx, ho⟩ := visit_not_eq_ok.1 h
      obtain rfl := map_eq_none_iff.1 ho.symm
      simp [kept, kept_of_visit a (!neg) hx]
    · simp [kept, hop]
  | .columnReference _, _, _ => rfl
  | .literal _ _ _, _, _ => rfl
  | .isNull _, _, _ => rfl
  | .cast _ _, _, _ => rfl
  | .ifThenElse _ _ _, _, _ => rfl
  | .scalarFunction _ _, _, _ => rfl
  | .inPredicate _ _, _, _ => rfl

/-- The transformer accepts every filter and transforms what is kept of it. -/
theorem IsFilter.visit_eq {n : Nat} (hf : IsFilter n e) (neg : Bool) :
    visit e { insideNegation := neg } = .ok ((kept e).map (toArrow neg)) := by
  induction hf generalizing neg with
  | comparison hop _ ht => rw [visit_columnComparison hop ht, kept_columnComparison hop]
  | @and a b _ _ iha ihb =>
    refine visitAnd_eq_ok.2 ⟨_, _, iha neg, ihb neg, ?_⟩
    cases ha : kept a <;> cases hb : kept b <;> simp [kept, keptAnd, ha, hb]
  | @or a b _ _ iha ihb =>
    refine visitOr_eq_ok.2 ⟨_, _, iha neg, ihb neg, ?_⟩
    cases ha : kept a <;> cases hb : kept b <;> simp [kept, ha, hb]
  | @not a _ iha =>
    refine visit_not_eq_ok.2 ⟨_, iha (!neg), ?_⟩
    cases ha : kept a <;> simp [kept, ha]
  | ignored h => rw [h neg, kept_of_visit _ neg (h neg), map_none]

lemma IsFilter.lt_of_mem_columns {n : Nat} (hf : IsFilter n e) (hk : kept e = some f) {i : Nat}
    (hi : i ∈ f.columns) : i < n := by
  induction hf generalizing f with
  | comparison hop hlt ht =>
    rw [kept_columnComparison hop] at hk
    rcases hop with rfl | rfl | rfl | rfl | rfl <;>
      (simp only [keptComparison, ht, if_true, some.injEq] at hk; subst hk;
       simp_all)
  | @and a b _ _ iha ihb =>
    rcases keptAnd_eq_some hk with ⟨f, g, ha, hb, rfl⟩ | ⟨ha, -⟩ | ⟨-, hb⟩
    · exact (mem_append.1 hi).elim (iha ha) (ihb hb)
    · exact iha ha hi
    · exact ihb hb hi
  | @or a b _ _ iha ihb =>
    obtain ⟨f, g, ha, hb, rfl⟩ := map₂_eq_some_iff.1 hk
    exact (mem_append.1 hi).elim (iha ha) (ihb hb)
  | @not a _ iha =>
    obtain ⟨f, ha, rfl⟩ := map_eq_some_iff.1 hk
    exact iha ha hi
  | ignored h => simp [kept_of_visit _ false (h false)] at hk

/-! ### Statistics of a set of rows -/

lemma reduceOption_eq_nil : l.reduceOption = [] ↔ ∀ x ∈ l, x = none := by
  simp [reduceOption]

variable [LinearOrder V] {m x : V}

lemma minExcludeNulls_le (h : minExcludeNulls l = some m) (hx : some x ∈ l) : m ≤ x :=
  (min?_eq_some_iff.1 h).2 x (reduceOption_mem_iff.2 hx)

lemma le_maxExcludeNulls (h : maxExcludeNulls l = some m) (hx : some x ∈ l) : x ≤ m :=
  (max?_eq_some_iff.1 h).2 x (reduceOption_mem_iff.2 hx)

lemma minExcludeNulls_eq_none : minExcludeNulls l = none ↔ ∀ x ∈ l, x = none := by
  rw [minExcludeNulls, min?_eq_none_iff, reduceOption_eq_nil]

lemma maxExcludeNulls_eq_none : maxExcludeNulls l = none ↔ ∀ x ∈ l, x = none := by
  rw [maxExcludeNulls, max?_eq_none_iff, reduceOption_eq_nil]

/-- The record `field` of a zone map holds the statistics of the first `n` columns of `rows`. -/
def IsStatistics (field : String → Option V) (n : Nat) (rows : List (Row V)) : Prop :=
  ∀ i < n, field (toString (2 * i)) = minExcludeNulls (rows.map (·.col i)) ∧
    field (toString (2 * i + 1)) = maxExcludeNulls (rows.map (·.col i))

omit [LinearOrder V] in
/-- Column `i` has a value in one of the rows. -/
def HasValue (rows : List (Row V)) (i : Nat) : Prop := ∃ r ∈ rows, r.col i ≠ none

/-- The comparison of a value of the column with the literal, the column on the given side. -/
def Comparison.holdsAt (op : Comparison) (side : Side) (x v : V) : Bool :=
  match side with
  | .lhs => op.holds x v
  | .rhs => op.holds v x

def ZoneFilter.eval (r : Row V) : ZoneFilter V → Option Bool
  | .comparison op side i v => (r.col i).map fun x => op.holdsAt side x v
  | .and a b => kand (a.eval r) (b.eval r)
  | .or a b => kor (a.eval r) (b.eval r)
  | .not a => knot (a.eval r)

section Record
variable {field : String → Option V} {n i : Nat} {rows : List (Row V)} {r : Row V}

lemma IsStatistics.field_eq_none (hs : IsStatistics field n rows) (hi : i < n) (op : Comparison)
    (side : Side) (neg : Bool) : field (statistic op side neg i) = none ↔ ¬ HasValue rows i := by
  obtain ⟨hmin, hmax⟩ := hs i hi
  unfold statistic
  split
  · rw [hmax, maxExcludeNulls_eq_none]
    simp [HasValue]
  · rw [hmin, minExcludeNulls_eq_none]
    simp [HasValue]

variable {op : Comparison} {side : Side}

lemma IsStatistics.exists_of_statistic (hs : IsStatistics field n rows) (hi : i < n)
    (hm : field (statistic op side neg i) = some m) : ∃ r ∈ rows, r.col i = some m := by
  obtain ⟨hmin, hmax⟩ := hs i hi
  have hmem : m ∈ (rows.map (·.col i)).reduceOption := by
    unfold statistic at hm
    split at hm
    · exact max?_mem (hmax.symm.trans hm)
    · exact min?_mem (hmin.symm.trans hm)
  exact mem_map.1 (reduceOption_mem_iff.1 hmem)

/-- The statistic bounds the values of the column on its side. -/
lemma IsStatistics.statistic_bounds (hs : IsStatistics field n rows) (hi : i < n)
    (hm : field (statistic op side neg i) = some m) (hr : r ∈ rows) (hx : r.col i = some x) :
    (usesMax op side neg = false → m ≤ x) ∧ (usesMax op side neg = true → x ≤ m) := by
  obtain ⟨hmin, hmax⟩ := hs i hi
  have hmem : some x ∈ rows.map (·.col i) := mem_map.2 ⟨r, hr, hx⟩
  constructor
  · intro hu
    simp only [statistic, hu] at hm
    exact minExcludeNulls_le (hmin ▸ hm) hmem
  · intro hu
    simp only [statistic, hu] at hm
    exact le_maxExcludeNulls (hmax ▸ hm) hmem

/-- If a comparison decides for the polarity on a value, it does so on whatever bounds the value as
the statistic does. -/
lemma Comparison.holdsAt_of_bounds (neg : Bool)
    (hbds : (usesMax op side neg = false → m ≤ x) ∧ (usesMax op side neg = true → x ≤ m))
    (h : op.holdsAt side x v = !neg) : op.holdsAt side m v = !neg := by
  obtain ⟨hle, hge⟩ := hbds
  cases op <;> cases side <;> cases neg <;>
    simp [usesMax, holdsAt, holds] at hle hge h ⊢ <;> order

variable (C : Cudf V) (slice : Int → Int → V → V)

lemma toBool_comparison (op : Comparison) (side : Side) (neg : Bool) (i : Nat) (v : V) :
    C.toBool (((comparison op side i v).toArrow neg).eval C slice field) =
      (field (statistic op side neg i)).map fun m => op.holdsAt side m v := by
  cases side <;> cases h : field (statistic op _ neg i) <;>
    simp [h, holdsAt]

/-! ### Soundness and completeness of a test -/

/-- The truth value of a filter on a record of statistics. -/
def test (field : String → Option V) (neg : Bool) (f : ZoneFilter V) : Option Bool :=
  C.toBool ((f.toArrow neg).eval C slice field)

@[simp] lemma test_and (neg : Bool) (f g : ZoneFilter V) : test C slice field neg (.and f g) =
      strictAnd (test C slice field neg f) (test C slice field neg g) := by
  simp [test]

@[simp] lemma test_or (neg : Bool) (f g : ZoneFilter V) : test C slice field neg (.or f g) =
      strictOr (test C slice field neg f) (test C slice field neg g) := by
  simp [test]

@[simp] lemma test_not (neg : Bool) (f : ZoneFilter V) :
    test C slice field neg (.not f) = knot (test C slice field (!neg) f) := by
  simp [test]

/-- A test is NULL exactly if one of its columns has no value in the rows. -/
theorem test_eq_none_iff (hs : IsStatistics field n rows) (neg : Bool) (f : ZoneFilter V)
    (hf : ∀ i ∈ f.columns, i < n) :
    test C slice field neg f = none ↔ ∃ i ∈ f.columns, ¬ HasValue rows i := by
  induction f generalizing neg with
  | comparison op side i v =>
    rw [test, toBool_comparison, map_eq_none_iff, hs.field_eq_none (hf i (by simp))]
    simp
  | and f g ihf ihg =>
    simp only [columns, mem_append] at hf ⊢
    rw [test_and, strictAnd_eq_none, ihf neg fun i h => hf i (.inl h),
      ihg neg fun i h => hf i (.inr h)]
    simp [or_and_right, exists_or]
  | or f g ihf ihg =>
    simp only [columns, mem_append] at hf ⊢
    rw [test_or, strictOr_eq_none, ihf neg fun i h => hf i (.inl h),
      ihg neg fun i h => hf i (.inr h)]
    simp only [or_and_right, exists_or]
  | not f ihf =>
    rw [test_not, knot, map_eq_none_iff, ihf (!neg) hf, columns]

/-- **Soundness under a polarity.** A test that is known decides for the polarity as soon as the
filter does so on one row. -/
theorem test_sound (hs : IsStatistics field n rows) (neg : Bool) (f : ZoneFilter V)
    (hf : ∀ i ∈ f.columns, i < n) (hr : r ∈ rows) (h : f.eval r = some (!neg))
    {b : Bool} (hb : test C slice field neg f = some b) : b = !neg := by
  induction f generalizing neg b with
  | comparison op side i v =>
    obtain ⟨x, hx, h⟩ := map_eq_some_iff.1 h
    rw [test, toBool_comparison, map_eq_some_iff] at hb
    obtain ⟨m, hm, rfl⟩ := hb
    exact op.holdsAt_of_bounds neg (hs.statistic_bounds (hf i (by simp)) hm hr hx) h
  | and f g ihf ihg =>
    simp only [columns, mem_append] at hf
    have ihf := ihf neg fun i h => hf i (.inl h)
    have ihg := ihg neg fun i h => hf i (.inr h)
    obtain ⟨bf, bg, hbf, hbg, rfl⟩ := map₂_eq_some_iff.1 (test_and C slice neg f g ▸ hb)
    cases neg with
    | false =>
      have h := (kand_eq_true _ _).1 h
      rw [ihf h.1 hbf, ihg h.2 hbg, Bool.and_self]
    | true => exact Bool.and_eq_false_iff.2 (((kand_eq_false _ _).1 h).imp (ihf · hbf) (ihg · hbg))
  | or f g ihf ihg =>
    simp only [columns, mem_append] at hf
    have ihf := ihf neg fun i h => hf i (.inl h)
    have ihg := ihg neg fun i h => hf i (.inr h)
    obtain ⟨bf, bg, hbf, hbg, rfl⟩ := map₂_eq_some_iff.1 (test_or C slice neg f g ▸ hb)
    cases neg with
    | false => exact Bool.or_eq_true_iff.2 (((kor_eq_true _ _).1 h).imp (ihf · hbf) (ihg · hbg))
    | true =>
      have h := (kor_eq_false _ _).1 h
      rw [ihf h.1 hbf, ihg h.2 hbg, Bool.or_self]
  | not f ihf =>
    obtain ⟨b', hb', rfl⟩ := map_eq_some_iff.1 (test_not C slice neg f ▸ hb)
    have h : f.eval r = some (!!neg) := by
      cases neg with
      | false => exact (knot_eq_true _).1 h
      | true => exact (knot_eq_false _).1 h
    rw [ihf (!neg) hf h hb', Bool.not_not]

section

variable (hs : IsStatistics field n [r])
include hs

lemma IsStatistics.field_singleton (hi : i < n) (op : Comparison)
    (side : Side) (neg : Bool) : field (statistic op side neg i) = r.col i := by
  obtain ⟨hmin, hmax⟩ := hs i hi
  unfold statistic
  split
  · rw [hmax]
    cases h : r.col i <;> simp [maxExcludeNulls, h]
  · rw [hmin]
    cases h : r.col i <;> simp [h]

lemma test_singleton_ne_none (neg : Bool)
    (f : ZoneFilter V) (hf : ∀ i ∈ f.columns, i < n) (hr : ∀ i ∈ f.columns, r.col i ≠ none) :
    test C slice field neg f ≠ none := by
  rw [ne_eq, test_eq_none_iff C slice hs neg f hf]
  rintro ⟨i, hi, hv⟩
  exact hv ⟨r, mem_singleton_self r, hr i hi⟩

/-- On the statistics of a single row a test is exact. -/
theorem test_singleton (neg : Bool)
    (f : ZoneFilter V) (hf : ∀ i ∈ f.columns, i < n) (hr : ∀ i ∈ f.columns, r.col i ≠ none) :
    test C slice field neg f = f.eval r := by
  induction f generalizing neg with
  | comparison op side i v =>
    rw [test, toBool_comparison, hs.field_singleton (hf i (by simp))]
    rfl
  | and f g ihf ihg =>
    simp only [columns, mem_append] at hf hr
    have hff := fun i h => hf i (.inl h)
    have hfg := fun i h => hf i (.inr h)
    have hrf := fun i h => hr i (.inl h)
    have hrg := fun i h => hr i (.inr h)
    rw [test_and, strictAnd_eq_kand (test_singleton_ne_none C slice hs neg f hff hrf)
      (test_singleton_ne_none C slice hs neg g hfg hrg), ihf neg hff hrf, ihg neg hfg hrg]
    rfl
  | or f g ihf ihg =>
    simp only [columns, mem_append] at hf hr
    have hff := fun i h => hf i (.inl h)
    have hfg := fun i h => hf i (.inr h)
    have hrf := fun i h => hr i (.inl h)
    have hrg := fun i h => hr i (.inr h)
    rw [test_or, strictOr_eq_kor (test_singleton_ne_none C slice hs neg f hff hrf)
      (test_singleton_ne_none C slice hs neg g hfg hrg), ihf neg hff hrf, ihg neg hfg hrg]
    rfl
  | not f ihf =>
    rw [test_not, ihf (!neg) hf hr]
    rfl

end

end Record

/-! ### Dropped operands -/

section Kept
variable (C : Cudf V) (τ : Nat → DataType)

/-- Beneath an odd number of negations, no AND has exactly one operand that is dropped. The flag
is the polarity of the position. -/
def NegatedAndsWhole : Bool → Expr V → Prop
  | neg, .binaryOp op a b =>
    (op = .nullLogicalAnd → neg = true → ((kept a).isSome ↔ (kept b).isSome)) ∧
      NegatedAndsWhole neg a ∧ NegatedAndsWhole neg b
  | neg, .unaryOp op a => op = .not → NegatedAndsWhole (!neg) a
  | _, _ => True

def NegationFree : Expr V → Prop
  | .binaryOp _ a b => NegationFree a ∧ NegationFree b
  | .unaryOp op _ => op ≠ .not
  | _ => True

omit [LinearOrder V] in
lemma NegationFree.negatedAndsWhole : ∀ {e : Expr V}, NegationFree e → NegatedAndsWhole false e
  | .binaryOp _ _ _, h => ⟨by simp, h.1.negatedAndsWhole, h.2.negatedAndsWhole⟩
  | .unaryOp _ _, h => fun hop => absurd hop h
  | .columnReference _, _ => trivial
  | .literal _ _ _, _ => trivial
  | .isNull _, _ => trivial
  | .cast _ _, _ => trivial
  | .ifThenElse _ _ _, _ => trivial
  | .scalarFunction _ _, _ => trivial
  | .inPredicate _ _, _ => trivial

lemma toBool_columnComparison {op : BinaryOp} (hop : IsComparison op) {side : Side} {i : Nat}
    {t : DataType} (hf : keptComparison op side i t v = some f) (r : Row V) :
    C.toBool ((columnComparison op side i (.literal t v false)).eval C τ r) = f.eval r := by
  have ht : isSupportedLiteral t := by
    by_contra ht
    simp [keptComparison, ht] at hf
  have eq_iff (a b : V) : some (decide (a = b)) = kand (some (decide (a ≤ b)))
      (some (decide (b ≤ a))) := by
    rcases lt_trichotomy a b with h | rfl | h
    · simp [h.ne, h.le, h.not_ge, kand]
    · simp [kand]
    · simp [h.ne', h.not_ge, kand]
  rcases hop with rfl | rfl | rfl | rfl | rfl <;>
    (simp only [keptComparison, ht, if_true, some.injEq] at hf; subst hf) <;>
    cases side <;> cases h : r.col i <;>
    simp [columnComparison, Expr.eval, Cudf.binaryOp, eval, holdsAt, holds, h, eq_iff, kand]

lemma toBool_columnComparison_null {op : BinaryOp} (hop : IsComparison op) (side : Side) (i : Nat)
    (t : DataType) (v : V) (r : Row V) :
    C.toBool ((columnComparison op side i (.literal t v true)).eval C τ r) = none := by
  rcases hop with rfl | rfl | rfl | rfl | rfl <;> cases side <;>
    simp [columnComparison, Cudf.binaryOp]

/-- If no AND beneath an odd number of negations lost an operand, what is kept of a filter decides
for the polarity on every row on which the filter does. -/
theorem IsFilter.eval_kept {n : Nat} (hf : IsFilter n e) (hw : NegatedAndsWhole neg e)
    (hk : kept e = some f) {r : Row V} (h : C.toBool (e.eval C τ r) = some (!neg)) :
    f.eval r = some (!neg) := by
  induction hf generalizing neg f with
  | @comparison op side i t v null hop _ _ =>
    rw [kept_columnComparison hop] at hk
    cases null with
    | false => rwa [← toBool_columnComparison C τ hop hk]
    | true => simp [toBool_columnComparison_null C τ hop] at h
  | @and a b _ _ iha ihb =>
    obtain ⟨hand, hwa, hwb⟩ := hw
    cases neg with
    | false =>
      have h := (Expr.isTrue_nullLogicalAnd C τ a b r).1 h
      rcases keptAnd_eq_some hk with ⟨f, g, ha, hb, rfl⟩ | ⟨ha, -⟩ | ⟨-, hb⟩
      · exact (kand_eq_true _ _).2 ⟨iha hwa ha h.1, ihb hwb hb h.2⟩
      · exact iha hwa ha h.1
      · exact ihb hwb hb h.2
    | true =>
      have h : C.toBool (a.eval C τ r) = some false ∨ C.toBool (b.eval C τ r) = some false := by
        simpa [Cudf.binaryOp] using h
      -- here a dropped operand could be the one that is FALSE
      rcases keptAnd_eq_some hk with ⟨f, g, ha, hb, rfl⟩ | ⟨ha, hb⟩ | ⟨ha, hb⟩
      · exact (kand_eq_false _ _).2 (h.imp (iha hwa ha) (ihb hwb hb))
      · simp [ha, hb] at hand
      · simp [ha, hb] at hand
  | @or a b _ _ iha ihb =>
    obtain ⟨-, hwa, hwb⟩ := hw
    obtain ⟨f, g, ha, hb, rfl⟩ := map₂_eq_some_iff.1 hk
    cases neg with
    | false =>
      exact (kor_eq_true _ _).2
        (((Expr.isTrue_nullLogicalOr C τ a b r).1 h).imp (iha hwa ha) (ihb hwb hb))
    | true =>
      have h : C.toBool (a.eval C τ r) = some false ∧ C.toBool (b.eval C τ r) = some false := by
        simpa [Cudf.binaryOp] using h
      exact (kor_eq_false _ _).2 ⟨iha hwa ha h.1, ihb hwb hb h.2⟩
  | @not a _ iha =>
    obtain ⟨f, ha, rfl⟩ := map_eq_some_iff.1 hk
    have h : C.toBool (a.eval C τ r) = some (!!neg) := by
      cases neg <;> simpa [Cudf.unaryOp] using h
    rw [eval, iha (hw rfl) ha h, knot_some, Bool.not_not]
  | ignored hi => simp [kept_of_visit _ false (hi false)] at hk

end Kept

end Gqe.ZoneMap
