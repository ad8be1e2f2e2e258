import Gqe.Lib.LittleEndian
import Gqe.Lib.RoundTrip
import Gqe.Substrait.Expressions

/-!
# Expressions in messages

Expressions are sent to other processes as protocol buffers (`proto/expression.proto`):
`rpc/serialization/expression_serialization.cpp` and
`rpc/serialization/expression_deserialization.cpp` are two visitors over all kinds of expressions.
-/

namespace Gqe.Rpc

open RoundTrip List LittleEndian LiteralValue BitVec

/-! ### Expressions with column names -/

/-- The expressions of `include/gqe/expression` with everything a message keeps, which includes the
names of columns. The type of a literal is the one of its value. -/
inductive Expression where
  | columnReference (columnIdx : Nat) (columnName : String)
  | literal (value : LiteralValue) (isNull : Bool)
  | isNull (input : Expression)
  | cast (input : Expression) (outType : DataType)
  | binaryOp (op : BinaryOp) (lhs rhs : Expression)
  | unaryOp (op : UnaryOp) (input : Expression)
  | ifThenElse (ifExpr thenExpr elseExpr : Expression)
  | scalarFunction (fn : ScalarFunction) (input : Expression)
  | inPredicate (needles : List Expression) (relationIndex : Nat)

mutual

/-- The expression without names of columns. -/
def Expression.toExpr : Expression → Expr LiteralValue
  | .columnReference columnIdx _ => .columnReference columnIdx
  | .literal value null => literalExpression value null
  | .isNull input => .isNull input.toExpr
  | .cast input outType => .cast input.toExpr outType
  | .binaryOp op lhs rhs => .binaryOp op lhs.toExpr rhs.toExpr
  | .unaryOp op input => .unaryOp op input.toExpr
  | .ifThenElse ifExpr thenExpr elseExpr =>
    .ifThenElse ifExpr.toExpr thenExpr.toExpr elseExpr.toExpr
  | .scalarFunction fn input => .scalarFunction fn input.toExpr
  | .inPredicate needles relationIndex => .inPredicate (Expression.toExprs needles) relationIndex

def Expression.toExprs : List Expression → List (Expr LiteralValue)
  | [] => []
  | e :: es => e.toExpr :: Expression.toExprs es

end

/-! ### Messages -/

/-- `proto::DataType`, with the number of the type. -/
structure DataTypeMessage where
  typeId : Nat
  scale : Option Int
  deriving DecidableEq

/-- `proto::Expression`. -/
inductive Message where
  | notSet
  | columnReference (columnIdx : Int) (columnName : String)
  | literal (dataType : DataTypeMessage) (value : List UInt8) (isNull : Bool)
  | isNull (input : Message)
  | cast (input : Message) (targetType : DataTypeMessage)
  | binaryOp (op : Int) (left right : Message)
  | unaryOp (op : Int) (input : Message)
  | ifThenElse (condition thenExpr elseExpr : Message)
  | scalarFunction (functionKind datetimeComponent : Int) (pattern escapeCharacter : String)
      (ignoreCase : Bool) (decimalPlaces start length : Int) (arguments : List Message)
  | inPredicate (relationIndex : Int) (needles : List Message)

/-- What ends a visitor: an exception, a read beyond the end of a buffer, or a message that no
expression of the model stands for. -/
inductive Failure where
  | logicError (what : String)
  | outOfBounds
  | outsideModel
  deriving DecidableEq

/-- The numbers of the enumerators of cuDF, which are sent as they are. -/
structure CudfEnums where
  binaryOperator : BinaryOp → Int
  binaryOperator_injective : Function.Injective binaryOperator
  unaryOperator : UnaryOp → Int
  unaryOperator_injective : Function.Injective unaryOperator

/-! ### Data types -/

/-- The numbers of `cudf::type_id`, as in `proto/result.proto`. -/
def typeId : DataType → Nat
  | .empty => 0
  | .int8 => 1
  | .int16 => 2
  | .int32 => 3
  | .int64 => 4
  | .uint8 => 5
  | .uint16 => 6
  | .uint32 => 7
  | .uint64 => 8
  | .float32 => 9
  | .float64 => 10
  | .bool8 => 11
  | .timestampDays => 12
  | .string => 23
  | .decimal32 _ => 25
  | .decimal64 _ => 26
  | .decimal128 _ => 27

def serializeDataType (dt : DataType) : DataTypeMessage :=
  match dt with
  | .decimal32 scale | .decimal64 scale | .decimal128 scale => ⟨typeId dt, some scale⟩
  | dt => ⟨typeId dt, none⟩

/-- `deserialize_data_type`, on the types of the model. -/
def deserializeDataType (dt : DataTypeMessage) : Except Failure DataType :=
  match dt.typeId, dt.scale.getD 0 with
  | 0, _ => .ok .empty
  | 1, _ => .ok .int8
  | 2, _ => .ok .int16
  | 3, _ => .ok .int32
  | 4, _ => .ok .int64
  | 5, _ => .ok .uint8
  | 6, _ => .ok .uint16
  | 7, _ => .ok .uint32
  | 8, _ => .ok .uint64
  | 9, _ => .ok .float32
  | 10, _ => .ok .float64
  | 11, _ => .ok .bool8
  | 12, _ => .ok .timestampDays
  | 23, _ => .ok .string
  | 25, scale => .ok (.decimal32 scale)
  | 26, scale => .ok (.decimal64 scale)
  | 27, scale => .ok (.decimal128 scale)
  | _, _ => .error .outsideModel

@[simp] lemma deserialize_dataType (dt : DataType) :
    deserializeDataType (serializeDataType dt) = .ok dt := by
  cases dt <;> rfl

/-! ### Literals -/

def bytesOfString (s : String) : List UInt8 := s.toUTF8.data.toList

def stringOfBytes (bytes : List UInt8) : Except Failure String :=
  match String.fromUTF8? ⟨bytes.toArray⟩ with
  | some s => .ok s
  | none => .error .outsideModel

@[simp] lemma stringOfBytes_bytesOfString (s : String) :
    stringOfBytes (bytesOfString s) = .ok s := by
  have hbytes : String.fromUTF8? ⟨(bytesOfString s).toArray⟩ = some s := dif_pos s.isValidUTF8
  simp [stringOfBytes, hbytes]

/-- The `visit` functions for literals. There is none for `literal_expression<bool>`, so the one of
the base class is called. -/
def serializeLiteral (value : LiteralValue) (isNull : Bool) : Except Failure Message :=
  match value with
  | .bool _ =>
    .error (.logicError "Visiting a generic literal_expression<T> is not implemented")
  | .int8 v => .ok (.literal (serializeDataType .int8) (toBytes (n := 1) v) isNull)
  | .int32 v => .ok (.literal (serializeDataType .int32) (toBytes (n := 4) v) isNull)
  | .int64 v => .ok (.literal (serializeDataType .int64) (toBytes (n := 8) v) isNull)
  | .float v =>
    .ok (.literal (serializeDataType .float32) (toBytes (n := 4) v) isNull)
  | .double v =>
    .ok (.literal (serializeDataType .float64) (toBytes (n := 8) v) isNull)
  | .string v => .ok (.literal (serializeDataType .string) (bytesOfString v) isNull)
  | .timestampDays v =>
    .ok (.literal (serializeDataType .timestampDays) (toBytes (n := 4) v) isNull)

/-- `std::memcpy` into a variable of `n` bytes. -/
def memcpy (n : Nat) (val : List UInt8) : Except Failure (BitVec (8 * n)) :=
  match ofBytes n val with
  | some v => .ok v
  | none => .error .outOfBounds

@[simp] lemma memcpy_toBytes {n : Nat} (v : BitVec (8 * n)) : memcpy n (toBytes v) = .ok v := by
  simp [memcpy, ofBytes_toBytes]

/-- The value of a literal of a type. -/
def deserializeLiteralValue (dt : DataType) (val : List UInt8) : Except Failure LiteralValue :=
  match dt with
  | .int8 => int8 <$> memcpy 1 val
  | .int32 => int32 <$> memcpy 4 val
  | .int64 => int64 <$> memcpy 8 val
  | .float32 => float <$> memcpy 4 val
  | .float64 => double <$> memcpy 8 val
  | .string => string <$> stringOfBytes val
  | .timestampDays => timestampDays <$> memcpy 4 val
  | dt => .error (.logicError
      ("Unsupported literal data type for deserialization: " ++ toString (typeId dt)))

/-! ### Operators and functions -/

/-- The operators with a class of their own, in the order of the switch. -/
def binaryOperators : List BinaryOp :=
  [.add, .sub, .mul, .trueDiv, .nullLogicalAnd, .nullLogicalOr, .equal, .nullEquals, .notEqual,
    .less, .greater, .lessEqual, .greaterEqual]

/-- The switch over the operator of a binary expression. -/
def deserializeBinaryOperator (E : CudfEnums) (op : Int) : Except Failure BinaryOp :=
  match binaryOperators.find? (E.binaryOperator · = op) with
  | some op => .ok op
  | none => .error (.logicError
      ("Unsupported binary operator for deserialization: " ++ toString op))

/-- The test of the operator of a unary expression. -/
def deserializeUnaryOperator (E : CudfEnums) (op : Int) : Except Failure UnaryOp :=
  if op = E.unaryOperator .not then .ok .not
  else .error (.logicError ("Unsupported unary operator for deserialization: " ++ toString op))

/-- `visit(scalar_function_expression)`. Only the fields of the function are set. -/
def serializeScalarFunction (fn : ScalarFunction) (arguments : List Message) : Message :=
  match fn with
  | .datepart component => .scalarFunction 0 component "" "" false 0 0 0 arguments
  | .like pattern escapeCharacter ignoreCase =>
    .scalarFunction 1 0 pattern escapeCharacter ignoreCase 0 0 0 arguments
  | .substr start length => .scalarFunction 2 0 "" "" false 0 start length arguments
  | .round decimalPlaces => .scalarFunction 3 0 "" "" false decimalPlaces 0 0 arguments

/-- The switch over the kind of a function. -/
def deserializeFunction (functionKind datetimeComponent : Int) (pattern escapeCharacter : String)
    (ignoreCase : Bool) (decimalPlaces start length : Int) : Except Failure ScalarFunction :=
  match functionKind with
  | 0 => .ok (.datepart datetimeComponent.toNat)
  | 1 => .ok (.like pattern escapeCharacter ignoreCase)
  | 2 => .ok (.substr start length)
  | 3 => .ok (.round decimalPlaces)
  | functionKind => .error (.logicError
      ("Unknown scalar function kind: " ++ toString functionKind))

/-! ### Expressions -/

mutual

def serializeExpression (E : CudfEnums) : Expression → Except Failure Message
  | .columnReference columnIdx columnName => .ok (.columnReference columnIdx columnName)
  | .literal value null => serializeLiteral value null
  | .isNull input => do
    let input ← serializeExpression E input
    .ok (.isNull input)
  | .cast input outType => do
    let input ← serializeExpression E input
    .ok (.cast input (serializeDataType outType))
  | .binaryOp op lhs rhs => do
    let left ← serializeExpression E lhs
    let right ← serializeExpression E rhs
    .ok (.binaryOp (E.binaryOperator op) left right)
  | .unaryOp op input => do
    let input ← serializeExpression E input
    .ok (.unaryOp (E.unaryOperator op) input)
  | .ifThenElse ifExpr thenExpr elseExpr => do
    let condition ← serializeExpression E ifExpr
    let thenExpr ← serializeExpression E thenExpr
    let elseExpr ← serializeExpression E elseExpr
    .ok (.ifThenElse condition thenExpr elseExpr)
  | .scalarFunction fn input => do
    let argument ← serializeExpression E input
    .ok (serializeScalarFunction fn [argument])
  | .inPredicate needles relationIndex => do
    let needles ← serializeExpressions E needles
    .ok (.inPredicate (BitVec.ofNat 32 relationIndex).toInt needles)

def serializeExpressions (E : CudfEnums) : List Expression → Except Failure (List Message)
  | [] => .ok []
  | e :: es => do
    let m ← serializeExpression E e
    let ms ← serializeExpressions E es
    .ok (m :: ms)

end

mutual

/-- `deserialize_expression`. A message without an expression is a null pointer. -/
def deserializeExpression (E : CudfEnums) : Message → Except Failure Expression
  | .notSet => .error .outsideModel
  | .columnReference columnIdx columnName =>
    if columnName = "" then .ok (.columnReference columnIdx.toNat "")
    else .ok (.columnReference columnIdx.toNat columnName)
  | .literal dataType value null => do
    let dt ← deserializeDataType dataType
    let value ← deserializeLiteralValue dt value
    .ok (.literal value null)
  | .isNull input => do
    let input ← deserializeExpression E input
    .ok (.isNull input)
  | .cast input targetType => do
    let input ← deserializeExpression E input
    let outType ← deserializeDataType targetType
    .ok (.cast input outType)
  | .binaryOp op left right => do
    let lhs ← deserializeExpression E left
    let rhs ← deserializeExpression E right
    let op ← deserializeBinaryOperator E op
    .ok (.binaryOp op lhs rhs)
  | .unaryOp op input => do
    let op ← deserializeUnaryOperator E op
    let input ← deserializeExpression E input
    .ok (.unaryOp op input)
  | .ifThenElse condition thenExpr elseExpr => do
    let ifExpr ← deserializeExpression E condition
    let thenExpr ← deserializeExpression E thenExpr
    let elseExpr ← deserializeExpression E elseExpr
    .ok (.ifThenElse ifExpr thenExpr elseExpr)
  | .scalarFunction functionKind datetimeComponent pattern escapeCharacter ignoreCase decimalPlaces
      start length arguments => do
    let args ← deserializeExpressions E arguments
    let fn ← deserializeFunction functionKind datetimeComponent pattern escapeCharacter ignoreCase
      decimalPlaces start length
    match args with
    | input :: _ => .ok (.scalarFunction fn input)
    | [] => .error .outOfBounds
  | .inPredicate relationIndex needles => do
    let needles ← deserializeExpressions E needles
    .ok (.inPredicate needles ((BitVec.ofInt 32 relationIndex).signExtend 64).toNat)

def deserializeExpressions (E : CudfEnums) : List Message → Except Failure (List Expression)
  | [] => .ok []
  | m :: ms => do
    let e ← deserializeExpression E m
    let es ← deserializeExpressions E ms
    .ok (e :: es)

end

/-! ### What the classes of expressions can express -/

mutual

/-- The expression is built by the classes of `include/gqe/expression`: a literal has the type of
its value, an operator has a class, and the index of a subquery is a `cudf::size_type`. -/
def Buildable : Expr LiteralValue → Prop
  | .columnReference _ => True
  | .literal type value _ => type = value.dataType
  | .isNull e => Buildable e
  | .cast e _ => Buildable e
  | .ifThenElse c t e => Buildable c ∧ Buildable t ∧ Buildable e
  | .unaryOp op e => op = .not ∧ Buildable e
  | .binaryOp op l r => op ∈ binaryOperators ∧ Buildable l ∧ Buildable r
  | .scalarFunction _ e => Buildable e
  | .inPredicate es i => AllBuildable es ∧ i < 2 ^ 31

def AllBuildable : List (Expr LiteralValue) → Prop
  | [] => True
  | e :: es => Buildable e ∧ AllBuildable es

end

mutual

def Expression.literals : Expression → List LiteralValue
  | .columnReference _ _ => []
  | .literal value _ => [value]
  | .isNull input => input.literals
  | .cast input _ => input.literals
  | .binaryOp _ lhs rhs => lhs.literals ++ rhs.literals
  | .unaryOp _ input => input.literals
  | .ifThenElse ifExpr thenExpr elseExpr =>
    ifExpr.literals ++ (thenExpr.literals ++ elseExpr.literals)
  | .scalarFunction _ input => input.literals
  | .inPredicate needles _ => Expression.literalsOf needles

def Expression.literalsOf : List Expression → List LiteralValue
  | [] => []
  | e :: es => e.literals ++ Expression.literalsOf es

end

/-! ### Round trip -/

def genericLiteralFailure : Failure :=
  .logicError "Visiting a generic literal_expression<T> is not implemented"

lemma sends_literal (E : CudfEnums) (value : LiteralValue) (null : Bool) :
    Sends genericLiteralFailure value.isBoolean (serializeExpression E) (deserializeExpression E)
      (.literal value null) := by
  cases value with
  | bool v => rfl
  | string v =>
    refine ⟨_, rfl, ?_⟩
    simp [deserializeExpression, deserializeLiteralValue]
  | _ =>
    refine ⟨_, rfl, ?_⟩
    simp [deserializeExpression, deserializeLiteralValue]

lemma deserializeOperator_eq_ok (E : CudfEnums) {op : BinaryOp} (hop : op ∈ binaryOperators) :
    deserializeBinaryOperator E (E.binaryOperator op) = .ok op := by
  have hfind : binaryOperators.find? (E.binaryOperator · = E.binaryOperator op) = some op := by
    simp only [E.binaryOperator_injective.eq_iff]
    revert op
    decide
  simp [deserializeBinaryOperator, hfind]

lemma relationIndex_eq {i : Nat} (hi : i < 2 ^ 31) :
    ((BitVec.ofInt 32 (BitVec.ofNat 32 i).toInt).signExtend 64).toNat = i := by
  have hmsb : (BitVec.ofNat 32 i).msb = false := by
    rw [msb_eq_false_iff_two_mul_lt, toNat_ofNat]
    omega
  rw [ofInt_toInt, signExtend_eq_setWidth_of_msb_false hmsb, toNat_setWidth,
    toNat_ofNat, Nat.mod_eq_of_lt (by omega), Nat.mod_eq_of_lt (by omega)]

lemma deserialize_scalarFunction (E : CudfEnums) {fn : ScalarFunction}
    {argument : Message} {input : Expression} (h : deserializeExpression E argument = .ok input) :
    deserializeExpression E (serializeScalarFunction fn [argument]) =
      .ok (.scalarFunction fn input) := by
  have hargs : deserializeExpressions E [argument] = .ok [input] := by
    rw [deserializeExpressions, h]
    rfl
  cases fn <;>
    simp [serializeScalarFunction, deserializeExpression, hargs, deserializeFunction]

mutual

/-- What was serialized is deserialized to what it was, and the visitor gets through an expression
unless it meets a Boolean literal. -/
lemma sends_expression (E : CudfEnums) : ∀ e : Expression, Buildable e.toExpr →
    Sends genericLiteralFailure (e.literals.any (·.isBoolean)) (serializeExpression E)
      (deserializeExpression E) e
  | .columnReference columnIdx columnName, _ => by
    refine ⟨_, rfl, ?_⟩
    by_cases hname : columnName = "" <;> simp [deserializeExpression]
  | .literal value null, _ => by
    rw [Expression.literals, any_cons, any_nil, Bool.or_false]
    exact sends_literal E value null
  | .isNull input, hbuildable => by
    simp only [Sends, serializeExpression]
    refine (sends_expression E input hbuildable).bind_last fun m hm => ⟨_, rfl, ?_⟩
    simp [deserializeExpression, hm]
  | .cast input outType, hbuildable => by
    simp only [Sends, serializeExpression]
    refine (sends_expression E input hbuildable).bind_last fun m hm => ⟨_, rfl, ?_⟩
    simp [deserializeExpression, hm]
  | .binaryOp op lhs rhs, ⟨hop, hlhs, hrhs⟩ => by
    simp only [Sends, serializeExpression, Expression.literals, any_append]
    refine (sends_expression E lhs hlhs).bind fun left hl => ?_
    refine (sends_expression E rhs hrhs).bind_last fun right hr => ⟨_, rfl, ?_⟩
    simp [deserializeExpression, hl, hr, deserializeOperator_eq_ok E hop]
  | .unaryOp op input, ⟨hop, hin⟩ => by
    simp only [Sends, serializeExpression]
    refine (sends_expression E input hin).bind_last fun m hm => ⟨_, rfl, ?_⟩
    simp [deserializeExpression, hm, deserializeUnaryOperator, hop]
  | .ifThenElse ifExpr thenExpr elseExpr, ⟨hif, hthen, helse⟩ => by
    simp only [Sends, serializeExpression, Expression.literals, any_append]
    refine (sends_expression E ifExpr hif).bind fun m₁ h₁ => ?_
    refine (sends_expression E thenExpr hthen).bind fun m₂ h₂ => ?_
    refine (sends_expression E elseExpr helse).bind_last fun m₃ h₃ => ⟨_, rfl, ?_⟩
    simp [deserializeExpression, h₁, h₂, h₃]
  | .scalarFunction fn input, hbuildable => by
    simp only [Sends, serializeExpression]
    exact (sends_expression E input hbuildable).bind_last fun m hm =>
      ⟨_, rfl, deserialize_scalarFunction E hm⟩
  | .inPredicate needles relationIndex, ⟨hneedles, hindex⟩ => by
    simp only [Sends, serializeExpression]
    refine (sends_expressions E needles hneedles).bind_last fun ms hms => ⟨_, rfl, ?_⟩
    simp only [deserializeExpression, hms, bind, Except.bind, relationIndex_eq hindex]

lemma sends_expressions (E : CudfEnums) : ∀ es : List Expression,
    AllBuildable (Expression.toExprs es) →
      Sends genericLiteralFailure ((Expression.literalsOf es).any (·.isBoolean))
        (serializeExpressions E) (deserializeExpressions E) es
  | [], _ => ⟨[], rfl, rfl⟩
  | e :: es, ⟨he, hes⟩ => by
    simp only [Sends, serializeExpressions, Expression.literalsOf, any_append]
    refine (sends_expression E e he).bind fun m hm => ?_
    refine (sends_expressions E es hes).bind_last fun ms hms => ⟨_, rfl, ?_⟩
    simp [deserializeExpressions, hm, hms]

end

/-- An expression comes back from a message as it was, with its structure, operators, literals and
names, exactly if none of its literals is a Boolean one. -/
theorem deserializeExpression_serializeExpression_iff (E : CudfEnums) (e : Expression)
    (h : Buildable e.toExpr) : (serializeExpression E e >>= deserializeExpression E) = .ok e ↔
      ∀ value ∈ e.literals, value.isBoolean = false := by
  rw [(sends_expression E e h).bind_read]
  simp

/-- Numbers for the operators, in the order in which the model lists them. -/
def CudfEnums.listed : CudfEnums where
  binaryOperator op := op.ctorIdx
  binaryOperator_injective := by
    intro a b h
    rw [← BinaryOp.ofNat_ctorIdx a, ← BinaryOp.ofNat_ctorIdx b, Int.ofNat.inj h]
  unaryOperator op := op.ctorIdx
  unaryOperator_injective := by
    intro a b h
    rw [← UnaryOp.ofNat_ctorIdx a, ← UnaryOp.ofNat_ctorIdx b, Int.ofNat.inj h]

/-- `a = NULL` for a named column of integers. -/
theorem deserializeExpression_serializeExpression_equal : (serializeExpression .listed
        (.binaryOp .equal (.columnReference 0 "a") (.literal (.int64 0) true)) >>=
      deserializeExpression .listed) =
      .ok (.binaryOp .equal (.columnReference 0 "a") (.literal (.int64 0) true)) :=
  (deserializeExpression_serializeExpression_iff .listed
    (.binaryOp .equal (.columnReference 0 "a") (.literal (.int64 0) true))
    ⟨by decide, trivial, rfl⟩).2 (by simp [Expression.literals, isBoolean])

/-- The literal `TRUE` is parsed, but not serialized. -/
theorem serializeExpression_true :
    Substrait.parseExpression .withoutFunctions (.literal (.boolean true)) =
        .ok (Expression.literal (.bool true) false).toExpr ∧
      serializeExpression .listed (.literal (.bool true) false) =
        .error (.logicError "Visiting a generic literal_expression<T> is not implemented") :=
  ⟨rfl, rfl⟩

end Gqe.Rpc
