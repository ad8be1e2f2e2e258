import Gqe.Lib.ThreeValued
import Mathlib.Order.Lattice
import Mathlib.Tactic.Cases

/-!
# Expressions

The expression trees of the engine (`include/gqe/expression`), their output types, and their
value on one row. A row is a list of nullable values; the operators the engine hands to cuDF are
the fields of `Cudf`, except for comparisons and Boolean connectives, whose meaning is fixed.
-/

namespace Gqe

open ThreeValued List

/-! ### Types and operators -/

/-- The column types (`cudf::data_type`) that expressions produce and inspect. -/
inductive DataType where
  | empty
  | int8 | int16 | int32 | int64
  | uint8 | uint16 | uint32 | uint64
  | float32 | float64
  | bool8
  | timestampDays
  | string
  | decimal32 (scale : Int) | decimal64 (scale : Int) | decimal128 (scale : Int)
  deriving DecidableEq

/-- `cudf::is_integral`; `BOOL8` is stored as an integer and counts as one. -/
def DataType.isIntegral : DataType → Bool
  | .int8 | .int16 | .int32 | .int64 | .uint8 | .uint16 | .uint32 | .uint64 | .bool8 => true
  | _ => false

def DataType.isFloatingPoint : DataType → Bool
  | .float32 | .float64 => true
  | _ => false

def DataType.isFixedPoint : DataType → Bool
  | .decimal32 _ | .decimal64 _ | .decimal128 _ => true
  | _ => false

def DataType.isFixedWidth : DataType → Bool
  | .empty | .string => false
  | _ => true

/-- The operators of `cudf::binary_operator` the engine builds or tests for. -/
inductive BinaryOp where
  | add | sub | mul | trueDiv
  | equal | nullEquals | notEqual | less | greater | lessEqual | greaterEqual
  | logicalAnd | nullLogicalAnd | logicalOr | nullLogicalOr
  deriving DecidableEq

/-- The operators of `cudf::unary_operator`. -/
inductive UnaryOp where
  | sin | cos | tan | arcsin | arccos | arctan | sinh | cosh | tanh | arcsinh | arccosh | arctanh
  | exp | log | sqrt | cbrt | ceil | floor | abs | rint | bitCount | bitInvert | not | negate
  deriving DecidableEq

/-- The scalar functions (`scalar_function_expression::function_kind`) with their arguments. -/
inductive ScalarFunction where
  | datepart (component : Nat)
  | like (pattern escapeCharacter : String) (ignoreCase : Bool)
  | round (decimalPlaces : Int)
  | substr (start length : Int)
  deriving DecidableEq

/-! ### Expression trees -/

/-- An expression over values `V`. A literal keeps a value even when it is the NULL literal. -/
inductive Expr (V : Type*) where
  | columnReference (columnIdx : Nat)
  | literal (type : DataType) (value : V) (isNull : Bool)
  | isNull (child : Expr V)
  | cast (child : Expr V) (outType : DataType)
  | ifThenElse (ifExpr thenExpr elseExpr : Expr V)
  | unaryOp (op : UnaryOp) (child : Expr V)
  | binaryOp (op : BinaryOp) (lhs rhs : Expr V)
  | scalarFunction (fn : ScalarFunction) (child : Expr V)
  | inPredicate (needles : List (Expr V)) (relationIndex : Nat)

variable {V : Type*}

/-- One row: a nullable value for each column. -/
abbrev Row (V : Type*) := List (Option V)

/-- The value in column `i`, NULL beyond the last column. -/
def Row.col (r : Row V) (i : Nat) : Option V := r.getD i none

lemma Row.col_append_left {r s : Row V} {i : Nat} (h : i < r.length) :
    col (r ++ s) i = r.col i := by
  simp [col, getElem?_append_left h]

lemma Row.col_append_right (r s : Row V) (i : Nat) : col (r ++ s) (r.length + i) = s.col i := by
  rw [col, getD_eq_getElem?_getD, getElem?_append_right (by simp)]
  simp [col]

/-- `arithmetic_output_type`: `none` where the source throws. -/
def arithmeticOutputType (left right : DataType) : Option DataType :=
  if left.isIntegral && right.isIntegral then some .int64
  else if left.isFloatingPoint || right.isFloatingPoint ||
      left.isFixedPoint || right.isFixedPoint then some .float64
  else none

/-- `binary_op_expression::data_type` of each operator. -/
def BinaryOp.dataType (op : BinaryOp) (left right : Option DataType) : Option DataType :=
  match op with
  | .add | .sub | .mul => left.bind fun l => right.bind fun r => arithmeticOutputType l r
  | .trueDiv => some .float64
  | _ => some .bool8

/-- `scalar_function_expression::data_type`; `round` keeps the type of its input. -/
def ScalarFunction.dataType (fn : ScalarFunction) (child : Option DataType) : Option DataType :=
  match fn with
  | .datepart _ => some .int16
  | .like _ _ _ => some .bool8
  | .round _    => child
  | .substr _ _ => some .string

/-- `expression::data_type`: the output type over columns of types `τ`, `none` where it throws. -/
@[simp] def Expr.dataType (τ : Nat → DataType) : Expr V → Option DataType
  | .columnReference i    => some (τ i)
  | .literal t _ _        => some t
  | .isNull _             => some .bool8
  | .cast _ t             => some t
  | .ifThenElse _ t _     => t.dataType τ
  | .unaryOp op e         => if op = .not then some .bool8 else e.dataType τ
  | .binaryOp op l r      => op.dataType (l.dataType τ) (r.dataType τ)
  | .scalarFunction fn e  => fn.dataType (e.dataType τ)
  | .inPredicate _ _      => some .bool8

/-! ### Evaluation -/

/-- The operations on columns that the evaluation of an expression asks cuDF for: nodes of a
`cudf::ast` expression, and calls with columns of their own. -/
inductive CudfCall where
  | astBinary (op : BinaryOp)
  | astNot
  | astIsNull
  | astCast (outType : DataType)
  | binaryOperation (op : BinaryOp) (outType : DataType)
  | unaryOperation (op : UnaryOp)
  | copyIfElse
  | cast (outType : DataType)
  | scalarFunction (fn : ScalarFunction)

/-- A result type for each operation: nodes of `cudf::ast` compute in the type of their operands,
which is the same for both. -/
def CudfCall.resultType : CudfCall → List DataType → Except String DataType
  | .astBinary op, [l, r] =>
    if l = r then .ok (if op = .add ∨ op = .sub ∨ op = .mul then l else (op.dataType l r).getD l)
    else .error "An AST expression was provided non-matching operand types."
  | .astNot, _ | .astIsNull, _ => .ok .bool8
  | .astCast outType, _ | .binaryOperation _ outType, _ | .cast outType, _ => .ok outType
  | .unaryOperation _, [t] => .ok t
  | .copyIfElse, [_, t, e] => if t = e then .ok t else .error "Both inputs must be of the same type"
  | .scalarFunction fn, [t] => .ok ((fn.dataType t).getD t)
  | _, _ => .error "Mismatch in number of operands"

/-- What the engine leaves to cuDF. Every operation is applied to non-NULL values, NULLs are
passed on by the caller; types are the operand types the engine computed. -/
structure Cudf (V : Type*) where
  /-- The stored form of a Boolean. -/
  ofBool : Bool → V
  ofBool_injective : Function.Injective ofBool
  arith : BinaryOp → Option DataType → Option DataType → V → V → V
  unary : UnaryOp → Option DataType → V → V
  cast : Option DataType → DataType → V → V
  scalarFunction : ScalarFunction → V → V
  /-- Membership of a tuple in the subquery with the given index. -/
  inPredicate : Nat → List (Option V) → Option V
  /-- The type of the column that an operation on columns of some types returns, or
  its exception. -/
  resultType : CudfCall → List DataType → Except String DataType := CudfCall.resultType

/-- Read a nullable value as a truth value. -/
def Cudf.toBool [DecidableEq V] (C : Cudf V) (v : Option V) : Option Bool :=
  v.map fun x => decide (x = C.ofBool true)

/-- Value of a binary operator. Comparisons and the plain connectives are NULL on a NULL operand;
`NULL_EQUALS` and the `NULL_LOGICAL` connectives are not. -/
def Cudf.binaryOp [LinearOrder V] (C : Cudf V) (op : BinaryOp) (tl tr : Option DataType)
    (l r : Option V) : Option V :=
  let compare (f : V → V → Bool) := Option.map₂ (fun a b => C.ofBool (f a b)) l r
  match op with
  | .equal          => compare fun a b => a = b
  | .notEqual       => compare fun a b => a ≠ b
  | .less           => compare fun a b => a < b
  | .greater        => compare fun a b => b < a
  | .lessEqual      => compare fun a b => a ≤ b
  | .greaterEqual   => compare fun a b => b ≤ a
  | .nullEquals     => some (C.ofBool (l = r))
  | .nullLogicalAnd => (kand (C.toBool l) (C.toBool r)).map C.ofBool
  | .nullLogicalOr  => (kor (C.toBool l) (C.toBool r)).map C.ofBool
  | .logicalAnd     => (strictAnd (C.toBool l) (C.toBool r)).map C.ofBool
  | .logicalOr      => (strictOr (C.toBool l) (C.toBool r)).map C.ofBool
  | .add | .sub | .mul | .trueDiv => Option.map₂ (C.arith op tl tr) l r

def Cudf.unaryOp [DecidableEq V] (C : Cudf V) (op : UnaryOp) (t : Option DataType)
    (v : Option V) : Option V :=
  if op = .not then (knot (C.toBool v)).map C.ofBool else v.map (C.unary op t)

@[simp] lemma Cudf.ofBool_inj (C : Cudf V) (a b : Bool) : C.ofBool a = C.ofBool b ↔ a = b :=
  C.ofBool_injective.eq_iff

section
variable [DecidableEq V]

@[simp] lemma Cudf.toBool_none (C : Cudf V) : C.toBool none = none := rfl

@[simp] lemma Cudf.toBool_ofBool (C : Cudf V) (b : Bool) :
    C.toBool (some (C.ofBool b)) = some b := by
  cases b <;> simp [toBool]

@[simp] lemma Cudf.toBool_map_ofBool (C : Cudf V) (b : Option Bool) :
    C.toBool (b.map C.ofBool) = b := by
  cases b <;> simp

end

/-! ### Column references -/

mutual

/-- The columns an expression refers to, from left to right. -/
@[simp] def Expr.columns : Expr V → List Nat
  | .columnReference i   => [i]
  | .literal _ _ _       => []
  | .isNull e            => e.columns
  | .cast e _            => e.columns
  | .ifThenElse c t e    => c.columns ++ t.columns ++ e.columns
  | .unaryOp _ e         => e.columns
  | .binaryOp _ l r      => l.columns ++ r.columns
  | .scalarFunction _ e  => e.columns
  | .inPredicate es _    => Expr.columnsList es

@[simp] def Expr.columnsList : List (Expr V) → List Nat
  | []      => []
  | e :: es => e.columns ++ Expr.columnsList es

end

mutual

@[simp] def Expr.rename (f : Nat → Nat) : Expr V → Expr V
  | .columnReference i   => .columnReference (f i)
  | .literal t v null    => .literal t v null
  | .isNull e            => .isNull (e.rename f)
  | .cast e t            => .cast (e.rename f) t
  | .ifThenElse c t e    => .ifThenElse (c.rename f) (t.rename f) (e.rename f)
  | .unaryOp op e        => .unaryOp op (e.rename f)
  | .binaryOp op l r     => .binaryOp op (l.rename f) (r.rename f)
  | .scalarFunction fn e => .scalarFunction fn (e.rename f)
  | .inPredicate es i    => .inPredicate (Expr.renameList f es) i

@[simp] def Expr.renameList (f : Nat → Nat) : List (Expr V) → List (Expr V)
  | []      => []
  | e :: es => e.rename f :: Expr.renameList f es

end

/-- The output type only depends on the types of the columns referred to. -/
lemma Expr.dataType_rename (f : Nat → Nat) (τ τ' : Nat → DataType) : ∀ (e : Expr V),
    (∀ i ∈ e.columns, τ' (f i) = τ i) → (e.rename f).dataType τ' = e.dataType τ
  | .columnReference i, h => by
    simp [h i (by simp [columns])]
  | .literal _ _ _, _ => rfl
  | .isNull _, _ => rfl
  | .cast _ _, _ => rfl
  | .ifThenElse c t e, h => by
    simp only [columns, mem_append] at h
    simp only [rename, dataType]
    exact dataType_rename f τ τ' t fun i hi => h i (.inl (.inr hi))
  | .unaryOp op e, h => by
    simp [dataType_rename f τ τ' e h]
  | .binaryOp op l r, h => by
    simp only [columns, mem_append] at h
    simp [dataType_rename f τ τ' l fun i hi => h i (.inl hi),
      dataType_rename f τ τ' r fun i hi => h i (.inr hi)]
  | .scalarFunction fn e, h => by
    simp [dataType_rename f τ τ' e h]
  | .inPredicate _ _, _ => rfl

variable {τ τ' : Nat → DataType}

lemma Expr.dataType_congr (e : Expr V) (h : ∀ i ∈ e.columns, τ' i = τ i) :
    e.dataType τ' = e.dataType τ :=
  (dataType_rename id τ' τ' e fun _ _ => rfl).symm.trans (dataType_rename id τ τ' e h)

variable [LinearOrder V]

/-! ### Value on a row -/

mutual

/-- Value of an expression on one row of a table whose columns have types `τ`. -/
@[simp] def Expr.eval (C : Cudf V) (τ : Nat → DataType) (r : Row V) : Expr V → Option V
  | .columnReference i   => r.col i
  | .literal _ v null    => if null then none else some v
  | .isNull e            => some (C.ofBool (e.eval C τ r).isNone)
  | .cast e t            => (e.eval C τ r).map (C.cast (e.dataType τ) t)
  | .ifThenElse c t e    => if C.toBool (c.eval C τ r) = some true then t.eval C τ r
                              else e.eval C τ r
  | .unaryOp op e        => C.unaryOp op (e.dataType τ) (e.eval C τ r)
  | .binaryOp op e₁ e₂   => C.binaryOp op (e₁.dataType τ) (e₂.dataType τ)
                              (e₁.eval C τ r) (e₂.eval C τ r)
  | .scalarFunction fn e => (e.eval C τ r).map (C.scalarFunction fn)
  | .inPredicate es i    => C.inPredicate i (Expr.evalList C τ r es)

@[simp] def Expr.evalList (C : Cudf V) (τ : Nat → DataType) (r : Row V) :
    List (Expr V) → List (Option V)
  | []      => []
  | e :: es => e.eval C τ r :: Expr.evalList C τ r es

end

mutual

lemma Expr.eval_rename (C : Cudf V) (f : Nat → Nat) (τ τ' : Nat → DataType) (r r' : Row V)
    (e : Expr V) (hτ : ∀ i ∈ e.columns, τ' (f i) = τ i)
    (hr : ∀ i ∈ e.columns, r'.col (f i) = r.col i) : (e.rename f).eval C τ' r' = e.eval C τ r := by
  match e with
  | .columnReference i =>
    simp [hr i (by simp [columns])]
  | .literal _ _ _ => rfl
  | .isNull e =>
    simp [eval_rename C f τ τ' r r' e hτ hr]
  | .cast e t =>
    simp [eval_rename C f τ τ' r r' e hτ hr, dataType_rename f τ τ' e hτ]
  | .ifThenElse c t e =>
    simp only [columns, mem_append] at hτ hr
    have hc := eval_rename C f τ τ' r r' c (fun i hi => hτ i (.inl (.inl hi)))
      (fun i hi => hr i (.inl (.inl hi)))
    have ht := eval_rename C f τ τ' r r' t (fun i hi => hτ i (.inl (.inr hi)))
      (fun i hi => hr i (.inl (.inr hi)))
    have he := eval_rename C f τ τ' r r' e (fun i hi => hτ i (.inr hi)) (fun i hi => hr i (.inr hi))
    simp [hc, ht, he]
  | .unaryOp op e =>
    simp [eval_rename C f τ τ' r r' e hτ hr, dataType_rename f τ τ' e hτ]
  | .binaryOp op l r₁ =>
    simp only [columns, mem_append] at hτ hr
    have hτl := fun i hi => hτ i (.inl hi)
    have hτr := fun i hi => hτ i (.inr hi)
    simp [dataType_rename f τ τ' l hτl, dataType_rename f τ τ' r₁ hτr,
      eval_rename C f τ τ' r r' l hτl (fun i hi => hr i (.inl hi)),
        eval_rename C f τ τ' r r' r₁ hτr (fun i hi => hr i (.inr hi))]
  | .scalarFunction fn e =>
    simp [eval_rename C f τ τ' r r' e hτ hr]
  | .inPredicate es i =>
    simp [evalList_rename C f τ τ' r r' es hτ hr]

lemma Expr.evalList_rename (C : Cudf V) (f : Nat → Nat) (τ τ' : Nat → DataType) (r r' : Row V)
    (es : List (Expr V)) (hτ : ∀ i ∈ columnsList es, τ' (f i) = τ i)
    (hr : ∀ i ∈ columnsList es, r'.col (f i) = r.col i) :
    evalList C τ' r' (renameList f es) = evalList C τ r es := by
  match es with
  | [] => rfl
  | e :: es =>
    simp only [columnsList, mem_append] at hτ hr
    simp [eval_rename C f τ τ' r r' e (fun i hi => hτ i (.inl hi)) (fun i hi => hr i (.inl hi)),
      evalList_rename C f τ τ' r r' es (fun i hi => hτ i (.inr hi)) (fun i hi => hr i (.inr hi))]

end

/-- An expression only sees its columns. -/
lemma Expr.eval_congr (C : Cudf V) {r r' : Row V} (e : Expr V) (hτ : ∀ i ∈ e.columns, τ' i = τ i)
    (hr : ∀ i ∈ e.columns, r'.col i = r.col i) :
    e.eval C τ' r' = e.eval C τ r :=
  (eval_rename C id τ' τ' r' r' e (fun _ _ => rfl) fun _ _ => rfl).symm.trans
    (eval_rename C id τ τ' r r' e hτ hr)

/-- The expression is TRUE on the row, which is what a filter or a join keeps. -/
def Expr.IsTrue (C : Cudf V) (τ : Nat → DataType) (e : Expr V) (r : Row V) : Prop :=
  C.toBool (e.eval C τ r) = some true

instance (C : Cudf V) (τ : Nat → DataType) (e : Expr V) (r : Row V) :
    Decidable (e.IsTrue C τ r) := inferInstanceAs (Decidable (_ = _))

/-! ### Basic facts -/

lemma Expr.isTrue_nullLogicalAnd (C : Cudf V) (τ : Nat → DataType) (e₁ e₂ : Expr V) (r : Row V) :
    (binaryOp .nullLogicalAnd e₁ e₂).IsTrue C τ r ↔ e₁.IsTrue C τ r ∧ e₂.IsTrue C τ r := by
  simp [IsTrue, Cudf.binaryOp]

lemma Expr.isTrue_nullLogicalOr (C : Cudf V) (τ : Nat → DataType) (e₁ e₂ : Expr V) (r : Row V) :
    (binaryOp .nullLogicalOr e₁ e₂).IsTrue C τ r ↔ e₁.IsTrue C τ r ∨ e₂.IsTrue C τ r := by
  simp [IsTrue, Cudf.binaryOp]

lemma Expr.isTrue_logicalAnd (C : Cudf V) (τ : Nat → DataType) (e₁ e₂ : Expr V) (r : Row V) :
    (binaryOp .logicalAnd e₁ e₂).IsTrue C τ r ↔ e₁.IsTrue C τ r ∧ e₂.IsTrue C τ r := by
  simp [IsTrue, Cudf.binaryOp]

/-- The plain disjunction is TRUE on fewer rows: it is NULL if an operand is. -/
lemma Expr.IsTrue.logicalOr {C : Cudf V} {τ : Nat → DataType} {e₁ e₂ : Expr V} {r : Row V}
    (h : (Expr.binaryOp .logicalOr e₁ e₂).IsTrue C τ r) : e₁.IsTrue C τ r ∨ e₂.IsTrue C τ r := by
  simp only [Expr.IsTrue, Expr.eval, Cudf.binaryOp, Cudf.toBool_map_ofBool] at h
  exact or_of_strictOr_eq_true _ _ h

lemma Expr.isTrue_equal (C : Cudf V) (τ : Nat → DataType) (e₁ e₂ : Expr V) (r : Row V) :
    (binaryOp .equal e₁ e₂).IsTrue C τ r ↔
      e₁.eval C τ r = e₂.eval C τ r ∧ e₁.eval C τ r ≠ none := by
  cases h₁ : e₁.eval C τ r <;> cases h₂ : e₂.eval C τ r <;>
    simp [IsTrue, Cudf.binaryOp, h₁, h₂]

lemma Expr.eval_arith (C : Cudf V) (τ : Nat → DataType) (e₁ e₂ : Expr V) (r : Row V)
    {op : BinaryOp} (hop : op = .add ∨ op = .sub) : (binaryOp op e₁ e₂).eval C τ r =
      Option.map₂ (C.arith op (e₁.dataType τ) (e₂.dataType τ)) (e₁.eval C τ r) (e₂.eval C τ r) := by
  rcases hop with rfl | rfl <;> rfl

/-! ### Integer columns -/

/-- Operators on integer columns, for concrete evaluations; Booleans are stored as 0 and 1. -/
def Cudf.integers : Cudf Int where
  ofBool b := if b then 1 else 0
  ofBool_injective := by
    intro a b
    cases a <;> cases b <;> simp
  arith op _ _ x y :=
    match op with
    | .add => x + y
    | .sub => x - y
    | .mul => x * y
    | _    => x / y
  unary _ _ x := x
  cast _ _ x := x
  scalarFunction _ x := x
  inPredicate _ _ := none

end Gqe
