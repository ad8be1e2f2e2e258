import Gqe.Join.Correctness

/-!
# What a join condition is split into

A condition is the conjunction of its equalities, which become keys, and of the rest, which becomes
a predicate of `cudf::ast`. Predicates know casts to 64 bits only, so that a cast to a narrower type
that changes a value is lost; they compute in the type of their operands, which may be narrower than
that of the expression; and they are refused where operands have different types.
-/

namespace Gqe.Join

open Fallible NullEquality Ast Except Option

variable {V : Type}

/-! ### Keys and predicates -/

def conditionConjuncts : Expr V → List (Expr V)
  | .binaryOp .logicalAnd left right => conditionConjuncts left ++ conditionConjuncts right
  | .binaryOp .nullLogicalAnd left right => conditionConjuncts left ++ conditionConjuncts right
  | condition => [condition]

/-- Keys of one kind of equality, with properties of their two sides. -/
structure JoinKeys.AreOf (policy : NullEquality) (P Q : Expr V → Prop)
    (keys : JoinKeys V) : Prop where
  compareNulls : keys.compareNulls = none ∨ keys.compareNulls = some policy
  left : ∀ e ∈ keys.leftKeyExprs, P e
  right : ∀ e ∈ keys.rightKeyExprs, Q e

variable {policy : NullEquality} {P Q : Expr V → Prop} {keys : JoinKeys V} {condition : Expr V}

lemma JoinKeys.AreOf.addKeys (hkeys : keys.AreOf policy P Q) {left right : Expr V} (hl : P left)
    (hr : Q right) :
    ∃ keys', keys.addKeys policy left right = .ok keys' ∧ keys'.AreOf policy P Q := by
  refine ⟨_, if_pos hkeys.compareNulls, .inr rfl, ?_, ?_⟩
  · simpa [or_imp, forall_and] using ⟨hkeys.left, hl⟩
  · simpa [or_imp, forall_and] using ⟨hkeys.right, hr⟩

lemma exists_parseJoinCondition (hkeys : keys.AreOf policy P Q)
    (h : ∀ policy' left right, .binaryOp (operator policy') left right ∈
      conditionConjuncts condition → policy' = policy ∧ P left ∧ Q right) :
    ∃ keys', parseJoinCondition keys condition = .ok keys' ∧ keys'.AreOf policy P Q := by
  fun_induction parseJoinCondition keys condition with
  | case1 keys left right =>
    obtain ⟨rfl, hl, hr⟩ := h .unequal left right List.mem_cons_self
    exact hkeys.addKeys hl hr
  | case2 keys left right =>
    obtain ⟨rfl, hl, hr⟩ := h .equal left right List.mem_cons_self
    exact hkeys.addKeys hl hr
  | case3 keys left right ihl ihr | case4 keys left right ihl ihr =>
    simp only [conditionConjuncts, List.mem_append] at h
    obtain ⟨keys₁, h₁, hkeys₁⟩ := ihl hkeys fun policy' l r hmem => h policy' l r (.inl hmem)
    obtain ⟨keys₂, h₂, hkeys₂⟩ := ihr keys₁ hkeys₁ fun policy' l r hmem => h policy' l r (.inr hmem)
    exact ⟨keys₂, by rw [h₁, ok_bind, h₂], hkeys₂⟩
  | case5 => exact ⟨_, rfl, hkeys.compareNulls, hkeys.left, hkeys.right⟩

section Splitting

variable [LinearOrder V]

/-- A condition is TRUE on two rows exactly if their keys are equal and the conjunction of the
predicates is TRUE. -/
def JoinKeys.Splits (C : Cudf V) (leftTypes rightTypes : List DataType) (keys : JoinKeys V)
    (condition : Expr V) : Prop :=
  ∀ l r : Row V, l.length = leftTypes.length →
    (condition.IsTrue C ((leftTypes ++ rightTypes).getD · .empty) (l ++ r) ↔
      keys.keysHold C leftTypes rightTypes l r ∧ ∀ predicate predicates,
        keys.nonEqualityConditions = predicate :: predicates →
          (predicates.foldl (.binaryOp .nullLogicalAnd) predicate).IsTrue C
            ((leftTypes ++ rightTypes).getD · .empty) (l ++ r))

/-- A condition that does not mix the two kinds of equality, each of them between the two inputs, is
parsed without a loss. -/
theorem exists_parseJoinCondition_splits (C : Cudf V) (condition : Expr V)
    (leftTypes rightTypes : List DataType)
    (hmix : ¬ ((∃ left right, .binaryOp .equal left right ∈ conditionConjuncts condition) ∧
      ∃ left right, .binaryOp .nullEquals left right ∈ conditionConjuncts condition))
    (hoperands : ∀ op ∈ [BinaryOp.equal, .nullEquals], ∀ left right,
      .binaryOp op left right ∈ conditionConjuncts condition →
        (∀ i ∈ left.columns, i < leftTypes.length) ∧ ∀ i ∈ right.columns, leftTypes.length ≤ i) :
    ∃ keys, parseJoinCondition {} condition = .ok keys ∧
      keys.Splits C leftTypes rightTypes condition := by
  obtain ⟨policy, hpolicy⟩ : ∃ policy, ∀ policy' left right,
      .binaryOp (operator policy') left right ∈ conditionConjuncts condition →
        policy' = policy := by
    by_cases hequal : ∃ left right, .binaryOp .equal left right ∈ conditionConjuncts condition
    · refine ⟨.unequal, fun policy' left right hmem => ?_⟩
      cases policy' with
      | equal => exact absurd ⟨hequal, left, right, hmem⟩ hmix
      | unequal => rfl
    · refine ⟨.equal, fun policy' left right hmem => ?_⟩
      cases policy' with
      | equal => rfl
      | unequal => exact absurd ⟨left, right, hmem⟩ hequal
  obtain ⟨keys, hparse, hkeys⟩ := exists_parseJoinCondition
    (show ({} : JoinKeys V).AreOf policy _ _ from ⟨.inl rfl, by simp, by simp⟩)
      fun policy' left right hmem =>
      ⟨hpolicy policy' left right hmem, hoperands _ (by cases policy' <;> simp [operator])
        left right hmem⟩
  refine ⟨keys, hparse, fun l r hl => ?_⟩
  rw [isTrue_iff_of_parse hparse, JoinKeys.keysHold_iff hkeys.left hkeys.right hl]
  cases keys.nonEqualityConditions with
  | nil => simp
  | cons predicate predicates => simp [isTrue_foldl_nullAnd]

end Splitting

/-- The condition `a = b AND a < b`. -/
def equalAndLess : Expr Int :=
  .binaryOp .nullLogicalAnd (.binaryOp .equal (.columnReference 0) (.columnReference 1))
    (.binaryOp .less (.columnReference 0) (.columnReference 1))

theorem exists_parseJoinCondition_equalAndLess :
    ∃ keys, parseJoinCondition {} equalAndLess = .ok keys ∧
    keys.Splits .integers [.int64] [.int64] equalAndLess := by
  refine exists_parseJoinCondition_splits .integers equalAndLess [.int64] [.int64] ?_ ?_
  · simp [equalAndLess, conditionConjuncts]
  · simp [equalAndLess, conditionConjuncts]

/-! ### Types of predicates -/

/-- The type of the result of an operation of `cudf::ast` on two operands of a type. Arithmetic
stays in the type of the operands, after the integral promotion of C++. -/
def astOutputType : BinaryOp → DataType → DataType
  | .add, t | .sub, t | .mul, t =>
    match t with
    | .int8 | .int16 | .uint8 | .uint16 | .bool8 => .int32
    | t => t
  | .trueDiv, _ => .float64
  | _, _ => .bool8

/-- The type that a predicate casts to for an output type. -/
def astCastType (outType : DataType) : DataType := if outType.isIntegral then .int64 else .float64

/-- The type of the predicate that an expression becomes. `cudf::ast` refuses operations on operands
of different types. -/
def predicateType (τ : Nat → DataType) : Expr V → Option DataType
  | .columnReference i => some (τ i)
  | .literal type _ _ => some type
  | .binaryOp op lhs rhs => do
    let t ← predicateType τ lhs
    let t' ← predicateType τ rhs
    if t = t' then some (astOutputType op t) else none
  | .unaryOp .not e => (predicateType τ e).map fun _ => .bool8
  | .cast e type => (predicateType τ e).map fun _ => astCastType type
  | _ => none

variable {t : DataType} {τ : Nat → DataType}

lemma isIntegral_astOutputType {op : BinaryOp} (hop : op = .add ∨ op = .sub ∨ op = .mul)
    (t : DataType) : (astOutputType op t).isIntegral = t.isIntegral := by
  rcases hop with rfl | rfl | rfl <;> cases t <;> rfl

lemma any_isIntegral_arithmeticOutputType (t t' : DataType) :
    (arithmeticOutputType t t').any (·.isIntegral) = (t.isIntegral && t'.isIntegral) := by
  unfold arithmeticOutputType
  split_ifs with h <;> simp_all [DataType.isIntegral]

lemma predicateType_binaryOp {op : BinaryOp} {lhs rhs : Expr V}
    (h : predicateType τ (.binaryOp op lhs rhs) = some t) : ∃ t', predicateType τ lhs = some t' ∧
      predicateType τ rhs = some t' ∧ t = astOutputType op t' := by
  simp only [predicateType, bind, Option.bind_eq_some_iff] at h
  obtain ⟨t₁, h₁, t₂, h₂, h⟩ := h
  split_ifs at h with heq
  subst heq
  exact ⟨t₁, h₁, h₂, (some.inj h).symm⟩

/-- A predicate computes with integers where the expression does. -/
lemma any_isIntegral_dataType {e : Expr V} {t : DataType} (h : predicateType τ e = some t) :
    (e.dataType τ).any (·.isIntegral) = t.isIntegral := by
  match e with
  | .columnReference i => rw [← some.inj h]; rfl
  | .literal type _ _ => rw [← some.inj h]; rfl
  | .unaryOp .not e =>
    obtain ⟨_, -, rfl⟩ := map_eq_some_iff.1 h
    rfl
  | .cast e type =>
    obtain ⟨_, -, rfl⟩ := map_eq_some_iff.1 h
    cases type <;> rfl
  | .binaryOp op lhs rhs =>
    obtain ⟨t', hlhs, hrhs, rfl⟩ := predicateType_binaryOp h
    have hl := any_isIntegral_dataType hlhs
    have hr := any_isIntegral_dataType hrhs
    cases op with
    | add | sub | mul =>
      rw [isIntegral_astOutputType (by simp), Expr.dataType, BinaryOp.dataType]
      cases hlt : lhs.dataType τ <;> cases hrt : rhs.dataType τ <;>
        simp_all [any_isIntegral_arithmeticOutputType]
    | _ => rfl

/-! ### Integers of fixed width -/

def wrapTo : DataType → Int → Int
  | .int8, v => v.bmod (2 ^ 8)
  | .int16, v => v.bmod (2 ^ 16)
  | .int32, v => v.bmod (2 ^ 32)
  | .int64, v => v.bmod (2 ^ 64)
  | .uint8, v => v % 2 ^ 8
  | .uint16, v => v % 2 ^ 16
  | .uint32, v => v % 2 ^ 32
  | .uint64, v => v % 2 ^ 64
  | .bool8, v => if v = 0 then 0 else 1
  | _, v => v

/-- Operations whose operands or results are not integers. The values of other types are coded as
integers in their order. -/
structure Floating where
  arith : BinaryOp → (leftIntegral rightIntegral : Bool) → (outType : DataType) → Int → Int → Int
  cast : (integral : Bool) → (outType : DataType) → Int → Int

namespace Floating

variable (F : Floating)

/-- An operation with a given output type. Sums, differences and products of integers wrap to it. -/
def arithTo (outType : DataType) (op : BinaryOp) (leftIntegral rightIntegral : Bool) (a b : Int) :
    Int :=
  if leftIntegral && rightIntegral then
    match op with
    | .add => wrapTo outType (a + b)
    | .sub => wrapTo outType (a - b)
    | .mul => wrapTo outType (a * b)
    | _ => F.arith op true true outType a b
  else F.arith op leftIntegral rightIntegral outType a b

def castTo (outType : DataType) (integral : Bool) (v : Int) : Int :=
  if integral && outType.isIntegral then wrapTo outType v else F.cast integral outType v

/-- Expressions over integers of fixed width: arithmetic has the output type of the expression, and
a cast wraps to the type that is asked for. -/
def wrappingIntegers : Cudf Int :=
  { Cudf.integers with
    arith := fun op tl tr => F.arithTo ((op.dataType tl tr).getD .empty) op (tl.any (·.isIntegral))
      (tr.any (·.isIntegral))
    cast := fun t type => F.castTo type (t.any (·.isIntegral)) }

/-- Operations of `cudf::ast` on operands of one type. -/
def astIntegers (t : DataType) : Cudf Int :=
  { F.wrappingIntegers with
    arith := fun op _ _ => F.arithTo (astOutputType op t) op t.isIntegral t.isIntegral }

/-- The type and the value of a predicate on two rows, unless `cudf::ast` refuses it. -/
def evaluate (leftTypes rightTypes : List DataType) (l r : Row Int) :
    Ast Int → Option (DataType × Option Int)
  | .columnReference i .left => some (leftTypes.getD i .empty, l.col i)
  | .columnReference i .right => some (rightTypes.getD i .empty, r.col i)
  | .literal type v isNull => some (type, if isNull then none else some v)
  | .binary op lhs rhs => do
    let (t, a) ← evaluate leftTypes rightTypes l r lhs
    let (t', b) ← evaluate leftTypes rightTypes l r rhs
    if t = t' then some (astOutputType op t, (F.astIntegers t).binaryOp op none none a b) else none
  | .not child => do
    let (_, v) ← evaluate leftTypes rightTypes l r child
    some (.bool8, F.wrappingIntegers.unaryOp .not none v)
  | .castToInt64 child => do
    let (t, v) ← evaluate leftTypes rightTypes l r child
    some (.int64, v.map (F.castTo .int64 t.isIntegral))
  | .castToFloat64 child => do
    let (t, v) ← evaluate leftTypes rightTypes l r child
    some (.float64, v.map (F.castTo .float64 t.isIntegral))

/-- No operation of an expression has another value on a row in the type of the predicate than in
its own: casts keep what they cast in 64 bits, and arithmetic does not leave the type of its
operands. -/
def Fits (τ : Nat → DataType) (row : Row Int) : Expr Int → Prop
  | .cast e type => Fits τ row e ∧ ∀ v ∈ e.eval F.wrappingIntegers τ row,
    let integral := (e.dataType τ).any (·.isIntegral)
    F.castTo type integral v = F.castTo (astCastType type) integral v
  | .unaryOp _ e => Fits τ row e
  | .binaryOp op lhs rhs => Fits τ row lhs ∧ Fits τ row rhs ∧
    ((op = .add ∨ op = .sub ∨ op = .mul) → ∀ t ∈ predicateType τ lhs,
      ∀ a ∈ lhs.eval F.wrappingIntegers τ row, ∀ b ∈ rhs.eval F.wrappingIntegers τ row,
        F.arithTo (astOutputType op t) op t.isIntegral t.isIntegral a b =
          F.arithTo (((Expr.binaryOp op lhs rhs).dataType τ).getD .empty)
            op t.isIntegral t.isIntegral
            a b)
  | _ => True

end Floating

section Predicate

variable {F : Floating} {leftTypes rightTypes : List DataType} {l r : Row Int}

/-- The types of the columns of both inputs. -/
def concatenatedTypes (leftTypes rightTypes : List DataType) (i : Nat) : DataType :=
  (leftTypes ++ rightTypes).getD i .empty

lemma concatenatedTypes_left {i : Nat} (hi : i < leftTypes.length) :
    concatenatedTypes leftTypes rightTypes i = leftTypes.getD i .empty := by
  simp [concatenatedTypes, List.getElem?_append_left hi]

lemma concatenatedTypes_right (i : Nat) :
    concatenatedTypes leftTypes rightTypes (leftTypes.length + i) = rightTypes.getD i .empty := by
  simp [concatenatedTypes, List.getElem?_append_right]

/-- Arithmetic that fits has the same value as a predicate and as an expression. -/
lemma astIntegers_binaryOp {op : BinaryOp} {lhs rhs : Expr Int} {row : Row Int}
    (hfit : F.Fits τ row (.binaryOp op lhs rhs)) (hlhs : predicateType τ lhs = some t)
    (hrhs : predicateType τ rhs = some t) :
    (F.astIntegers t).binaryOp op none none (lhs.eval F.wrappingIntegers τ row)
      (rhs.eval F.wrappingIntegers τ row) =
    (Expr.binaryOp op lhs rhs).eval F.wrappingIntegers τ row := by
  have hl := any_isIntegral_dataType hlhs
  have hr := any_isIntegral_dataType hrhs
  cases op with
  | add | sub | mul =>
    have hvalue := hfit.2.2 (by simp) t hlhs
    simp only [Expr.eval, Cudf.binaryOp, Floating.astIntegers]
    cases ha : lhs.eval F.wrappingIntegers τ row with
    | none => rfl
    | some a =>
      cases hb : rhs.eval F.wrappingIntegers τ row with
      | none => rfl
      | some b =>
        have hab := hvalue a (by simp [ha]) b (by simp [hb])
        simp only [map₂_some_some, hab, Floating.wrappingIntegers, hl, hr]
        rfl
  | trueDiv =>
    simp only [Expr.eval, Cudf.binaryOp, Floating.astIntegers, Floating.wrappingIntegers, hl, hr]
    rfl
  | _ => rfl

/-- `cudf::ast` takes a predicate if the types of all operands match. -/
lemma map_fst_evaluate (hl : l.length = leftTypes.length) {e : Expr Int} {ast : Ast Int}
    (h : predicateRewriter l.length e = .ok ast) :
    (F.evaluate leftTypes rightTypes l r ast).map (·.1) =
      predicateType (concatenatedTypes leftTypes rightTypes) e := by
  match e with
  | .columnReference i =>
    rw [predicateRewriter] at h
    split_ifs at h with hi
    · obtain rfl := ok.inj h
      rw [predicateType, concatenatedTypes_left (hl ▸ hi)]
      rfl
    · obtain rfl := ok.inj h
      obtain ⟨k, rfl⟩ := Nat.exists_eq_add_of_le (Nat.not_lt.1 hi)
      rw [predicateType, hl, concatenatedTypes_right, Nat.add_sub_cancel_left]
      rfl
  | .binaryOp op lhs rhs =>
    obtain ⟨lhs', hlhs, h⟩ := bind_eq_ok h
    obtain ⟨rhs', hrhs, h⟩ := bind_eq_ok h
    split_ifs at h
    obtain rfl := ok.inj h
    rw [predicateType, ← map_fst_evaluate hl hlhs, ← map_fst_evaluate hl hrhs, Floating.evaluate]
    cases F.evaluate leftTypes rightTypes l r lhs' with
    | none => rfl
    | some a =>
      cases F.evaluate leftTypes rightTypes l r rhs' with
      | none => rfl
      | some b =>
        simp only [bind, Option.bind_some, map_some]
        split_ifs <;> rfl
  | .unaryOp op child =>
    obtain ⟨child', hch, h⟩ := bind_eq_ok h
    split_ifs at h with hop
    obtain rfl := ok.inj h
    subst hop
    rw [predicateType, ← map_fst_evaluate hl hch, Floating.evaluate]
    cases F.evaluate leftTypes rightTypes l r child' <;> rfl
  | .literal type value isNull =>
    rw [predicateRewriter] at h
    split_ifs at h
    obtain rfl := ok.inj h
    rfl
  | .cast child type =>
    obtain ⟨child', hch, h⟩ := bind_eq_ok h
    rw [predicateType, ← map_fst_evaluate hl hch, astCastType]
    split_ifs at h with hintegral
    · obtain rfl := ok.inj h
      rw [Floating.evaluate, if_pos hintegral]
      cases F.evaluate leftTypes rightTypes l r child' <;> rfl
    · obtain rfl := ok.inj h
      rw [Floating.evaluate, if_neg hintegral]
      cases F.evaluate leftTypes rightTypes l r child' <;> rfl
  | .isNull _ | .ifThenElse _ _ _ | .scalarFunction _ _ | .inPredicate _ _ => cases h

/-- A predicate that is taken has the value of the expression it was rewritten from, if the
expression fits. -/
lemma evaluate_eq_some (hl : l.length = leftTypes.length) {e : Expr Int} {ast : Ast Int}
    {t : DataType} (h : predicateRewriter l.length e = .ok ast)
    (htype : predicateType (concatenatedTypes leftTypes rightTypes) e = some t)
    (hfit : F.Fits (concatenatedTypes leftTypes rightTypes) (l ++ r) e) :
    F.evaluate leftTypes rightTypes l r ast = some (t,
      e.eval F.wrappingIntegers (concatenatedTypes leftTypes rightTypes) (l ++ r)) := by
  match e with
  | .columnReference i =>
    rw [predicateRewriter] at h
    obtain rfl := some.inj htype
    split_ifs at h with hi
    · obtain rfl := ok.inj h
      rw [Floating.evaluate, concatenatedTypes_left (hl ▸ hi), Expr.eval, Row.col_append_left hi]
    · obtain rfl := ok.inj h
      obtain ⟨k, rfl⟩ := Nat.exists_eq_add_of_le (Nat.not_lt.1 hi)
      rw [Floating.evaluate, Expr.eval, Row.col_append_right, Nat.add_sub_cancel_left, hl,
        concatenatedTypes_right]
  | .binaryOp op lhs rhs =>
    obtain ⟨lhs', hlhs, h⟩ := bind_eq_ok h
    obtain ⟨rhs', hrhs, h⟩ := bind_eq_ok h
    split_ifs at h
    obtain rfl := ok.inj h
    obtain ⟨t', htl, htr, rfl⟩ := predicateType_binaryOp htype
    rw [Floating.evaluate, evaluate_eq_some hl hlhs htl hfit.1,
      evaluate_eq_some hl hrhs htr hfit.2.1]
    simp only [bind, Option.bind_some, if_true, astIntegers_binaryOp hfit htl htr]
  | .unaryOp op child =>
    obtain ⟨child', hch, h⟩ := bind_eq_ok h
    split_ifs at h with hop
    obtain rfl := ok.inj h
    subst hop
    obtain ⟨t', hch', rfl⟩ := map_eq_some_iff.1 htype
    rw [Floating.evaluate, evaluate_eq_some hl hch hch' hfit]
    rfl
  | .literal type value isNull =>
    rw [predicateRewriter] at h
    split_ifs at h
    obtain rfl := ok.inj h
    obtain rfl := some.inj htype
    rfl
  | .cast child type =>
    obtain ⟨child', hch, h⟩ := bind_eq_ok h
    obtain ⟨t', hch', rfl⟩ := map_eq_some_iff.1 htype
    have hvalue : (child.eval F.wrappingIntegers (concatenatedTypes leftTypes rightTypes)
          (l ++ r)).map (F.castTo (astCastType type) t'.isIntegral) =
        (Expr.cast child type).eval F.wrappingIntegers (concatenatedTypes leftTypes rightTypes)
          (l ++ r) := by
      rw [Expr.eval]
      refine map_congr fun v hv => ?_
      rw [← any_isIntegral_dataType hch']
      exact (hfit.2 v hv).symm
    rw [← hvalue, astCastType]
    split_ifs at h with hintegral
    · obtain rfl := ok.inj h
      rw [Floating.evaluate, evaluate_eq_some hl hch hch' hfit.1, if_pos hintegral]
      rfl
    · obtain rfl := ok.inj h
      rw [Floating.evaluate, evaluate_eq_some hl hch hch' hfit.1, if_neg hintegral]
      rfl
  | .isNull _ | .ifThenElse _ _ _ | .scalarFunction _ _ | .inPredicate _ _ => cases h

end Predicate

/-- `cudf::ast` takes the predicate, and its truth value on two rows is that of the expression. -/
def Floating.MeansTheSame (F : Floating) (leftTypes rightTypes : List DataType) (l r : Row Int)
    (ast : Ast Int) (e : Expr Int) : Prop :=
  ∃ t v, F.evaluate leftTypes rightTypes l r ast = some (t, v) ∧ F.wrappingIntegers.toBool v =
    F.wrappingIntegers.toBool
      (e.eval F.wrappingIntegers (concatenatedTypes leftTypes rightTypes) (l ++ r))

/-- The predicate of a join has the truth value of the conjunction it was rewritten from only if the
types of the operands match as it is rewritten, and does have it if also no cast and no arithmetic
leaves the type that the predicate has for it. -/
theorem meansTheSame_parsePredicates (F : Floating) {leftTypes rightTypes : List DataType}
    {l r : Row Int} {predicate : Expr Int} {predicates : List (Expr Int)} {ast : Ast Int}
    (hl : l.length = leftTypes.length)
    (h : parsePredicates l.length predicate predicates = .ok ast) :
    (F.MeansTheSame leftTypes rightTypes l r ast
        (predicates.foldl (.binaryOp .nullLogicalAnd) predicate) →
      predicateType (concatenatedTypes leftTypes rightTypes)
        (predicates.foldl (.binaryOp .nullLogicalAnd) predicate) ≠ none) ∧
    (predicateType (concatenatedTypes leftTypes rightTypes)
        (predicates.foldl (.binaryOp .nullLogicalAnd) predicate) ≠ none →
      F.Fits (concatenatedTypes leftTypes rightTypes) (l ++ r)
        (predicates.foldl (.binaryOp .nullLogicalAnd) predicate) →
      F.MeansTheSame leftTypes rightTypes l r ast
        (predicates.foldl (.binaryOp .nullLogicalAnd) predicate)) := by
  constructor
  · rintro ⟨t, v, hvalue, -⟩
    rw [← map_fst_evaluate hl h, hvalue]
    simp
  · intro htype hfit
    obtain ⟨t, ht⟩ := ne_none_iff_exists'.1 htype
    exact ⟨t, _, evaluate_eq_some hl h ht hfit, rfl⟩

/-- Integers without operations on other types. -/
def Floating.integersOnly : Floating where
  arith _ _ _ _ _ _ := 0
  cast _ _ v := v

/-- The predicate `a + b < c`. -/
def sumLess : Expr Int :=
  .binaryOp .less (.binaryOp .add (.columnReference 0) (.columnReference 1)) (.columnReference 3)

/-- The predicate `CAST(d AS INT32) < e`. -/
def narrowLess : Expr Int :=
  .binaryOp .less (.cast (.columnReference 2) .int32) (.columnReference 4)

/-- The predicates on 32-bit columns `a`, `b` and `c` and 64-bit columns `d` and `e`. -/
theorem meansTheSame_sumLess_narrowLess :
    Floating.integersOnly.MeansTheSame [.int32, .int32, .int64] [.int32, .int64]
      [some 1, some 2, some 5] [some 4, some 7]
      (.binary .nullLogicalAnd
        (.binary .less (.binary .add (.columnReference 0 .left) (.columnReference 1 .left))
          (.columnReference 0 .right))
        (.binary .less (.castToInt64 (.columnReference 2 .left)) (.columnReference 1 .right)))
      (.binaryOp .nullLogicalAnd sumLess narrowLess) := by
  refine (@meansTheSame_parsePredicates .integersOnly _ _ _ _ sumLess [narrowLess] _ rfl rfl).2
    (by decide) ?_
  refine ⟨⟨⟨trivial, trivial, fun _ => ?_⟩, trivial, nofun⟩, ⟨⟨trivial, ?_⟩, trivial, nofun⟩, nofun⟩
  · rintro t ht a ha b hb
    obtain rfl := some.inj ht
    obtain rfl := some.inj ha
    obtain rfl := some.inj hb
    decide
  · rintro v hv
    obtain rfl := some.inj hv
    decide

/-- `CAST(4294967296 AS INT32)` is 0, but 4294967296 is compared, and the sum of two columns of 32
bits wraps. -/
theorem not_meansTheSame_narrowLess_sumLess :
    parsePredicates 3 narrowLess [] = .ok (.binary .less (.castToInt64 (.columnReference 2 .left))
      (.columnReference 1 .right)) ∧
    ¬ Floating.integersOnly.MeansTheSame [.int32, .int32, .int64] [.int32, .int64]
      [some 1, some 2, some 4294967296] [some 4, some 1]
      (.binary .less (.castToInt64 (.columnReference 2 .left)) (.columnReference 1 .right))
      narrowLess ∧
    parsePredicates 3 sumLess [] = .ok (.binary .less (.binary .add (.columnReference 0 .left)
      (.columnReference 1 .left)) (.columnReference 0 .right)) ∧
    ¬ Floating.integersOnly.MeansTheSame [.int32, .int32, .int64] [.int32, .int64]
      [some 2147483647, some 1, some 0] [some 0, some 0]
      (.binary .less (.binary .add (.columnReference 0 .left) (.columnReference 1 .left))
        (.columnReference 0 .right)) sumLess := by
  refine ⟨rfl, ?_, rfl, ?_⟩
  · rintro ⟨t, v, hvalue, heq⟩
    obtain rfl : some 0 = v := some.inj (congrArg (Option.map Prod.snd) hvalue)
    revert heq
    decide
  · rintro ⟨t, v, hvalue, heq⟩
    obtain rfl : some 1 = v := some.inj (congrArg (Option.map Prod.snd) hvalue)
    revert heq
    decide

end Gqe.Join
