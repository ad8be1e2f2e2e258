import Gqe.Expression
import Gqe.Lib.Fallible

/-!
# Substrait expressions

The expressions of a Substrait plan, and the parser that turns them into expressions of the engine
(`logical/from_substrait.cpp`).
-/

namespace Gqe

open Fallible Except

/-- The values of `literal_expression<T>`, with a constructor for each `T` the engine uses. Floating
point numbers are their bits. -/
inductive LiteralValue where
  | bool (value : Bool)
  | int8 (value : BitVec 8)
  | int32 (value : BitVec 32)
  | int64 (value : BitVec 64)
  | float (bits : BitVec 32)
  | double (bits : BitVec 64)
  | string (value : String)
  | timestampDays (count : BitVec 32)
  deriving DecidableEq

/-- `_cudf_type_from_cpp_type`. -/
def LiteralValue.dataType : LiteralValue → DataType
  | .bool _ => .bool8
  | .int8 _ => .int8
  | .int32 _ => .int32
  | .int64 _ => .int64
  | .float _ => .float32
  | .double _ => .float64
  | .string _ => .string
  | .timestampDays _ => .timestampDays

/-- The value of a `literal_expression<bool>`. -/
def LiteralValue.isBoolean : LiteralValue → Bool
  | .bool _ => true
  | _ => false

/-- The constructor of `literal_expression`. -/
def literalExpression (value : LiteralValue) (isNull : Bool := false) : Expr LiteralValue :=
  .literal value.dataType value isNull

mutual

def Expr.mapValues {V W : Type*} (f : V → W) : Expr V → Expr W
  | .columnReference i => .columnReference i
  | .literal type value null => .literal type (f value) null
  | .isNull e => .isNull (e.mapValues f)
  | .cast e type => .cast (e.mapValues f) type
  | .ifThenElse c t e => .ifThenElse (c.mapValues f) (t.mapValues f) (e.mapValues f)
  | .unaryOp op e => .unaryOp op (e.mapValues f)
  | .binaryOp op l r => .binaryOp op (l.mapValues f) (r.mapValues f)
  | .scalarFunction fn e => .scalarFunction fn (e.mapValues f)
  | .inPredicate es i => .inPredicate (Expr.mapValuesList f es) i

def Expr.mapValuesList {V W : Type*} (f : V → W) : List (Expr V) → List (Expr W)
  | [] => []
  | e :: es => e.mapValues f :: Expr.mapValuesList f es

end

namespace Substrait

/-! ### Messages -/

/-- The kinds of `substrait::Type` the parser tells apart. -/
inductive TypeKind where
  | bool | i8 | i16 | i32 | i64 | fp32 | fp64 | string | varchar | date | decimal
  | other (kindCase : Nat)
  deriving DecidableEq

/-- `kind_case`, the field number of the kind. -/
def TypeKind.kindCase : TypeKind → Nat
  | .bool => 1
  | .i8 => 2
  | .i16 => 3
  | .i32 => 5
  | .i64 => 7
  | .fp32 => 10
  | .fp64 => 11
  | .string => 12
  | .date => 16
  | .varchar => 22
  | .decimal => 24
  | .other kindCase => kindCase

/-- `substrait::Expression_Literal`. -/
inductive Literal where
  | boolean (value : Bool)
  | i8 (value : BitVec 32)
  | i16 (value : BitVec 32)
  | i32 (value : BitVec 32)
  | i64 (value : BitVec 64)
  | fp32 (bits : BitVec 32)
  | fp64 (bits : BitVec 64)
  | string (value : String)
  | fixedChar (value : String)
  | date (value : BitVec 32)
  | decimal (value : BitVec 128) (scale : Int)
  | null (type : TypeKind)
  | other (literalTypeCase : Nat)
  deriving DecidableEq

/-- `substrait::Expression_FieldReference`. -/
inductive FieldReference where
  | structField (field : Nat) (hasChild : Bool)
  | otherSegment
  | indirect
  deriving DecidableEq

mutual

inductive Expression where
  | selection (reference : FieldReference)
  | scalarFunction (functionReference : Nat) (arguments : List Expression)
  | literal (literal : Literal)
  | subquery
  | ifThen (ifs : List IfClause) (else_ : Expression)
  | singularOrList (value : Expression) (options : List Expression)
  | cast (input : Expression) (type : TypeKind)
  | other (rexTypeCase : Nat)

/-- `substrait::Expression_IfThen_IfClause`. -/
inductive IfClause where
  | mk (if_ then_ : Expression)

end

/-! ### Results of the parser -/

/-- What ends the parser: an exception, an assertion, or an access the language leaves undefined. -/
inductive ParseError where
  | invalidArgument (what : String)
  | runtimeError (what : String)
  | logicError (what : String)
  | assertionFails
  | nullPointer
  | emptyVector
  deriving DecidableEq

/-- What the parser looks up: the functions the plan declares, and the functions of cuDF that name a
type and convert a decimal. -/
structure Parser where
  functionReferenceToName : Nat → Option String
  typeToName : DataType → String
  convertFixedToFloating : BitVec 128 → Int → BitVec 64

def Parser.getFunctionName (P : Parser) (reference : Nat) : Except ParseError String :=
  match P.functionReferenceToName reference with
  | some name => .ok name
  | none => .error (.runtimeError "Cannot get function name: key does not exist")

def Parser.withoutFunctions : Parser where
  functionReferenceToName _ := none
  typeToName _ := ""
  convertFixedToFloating value _ := value.truncate 64

/-! ### Literals, types and references -/

/-- `parse_literal_expression`. The second test for `has_i32` stands where one for `has_i64` is
missing, so that a NULL of type `i64` is refused. -/
def parseLiteralExpression (P : Parser) : Literal → Except ParseError (Expr LiteralValue)
  | .boolean value => .ok (literalExpression (.bool value))
  | .i8 value | .i16 value | .i32 value => .ok (literalExpression (.int32 value))
  | .i64 value => .ok (literalExpression (.int64 value))
  | .fp32 bits => .ok (literalExpression (.float bits))
  | .fp64 bits => .ok (literalExpression (.double bits))
  | .string value | .fixedChar value => .ok (literalExpression (.string value))
  | .date value => .ok (literalExpression (.timestampDays value))
  | .decimal value scale =>
    .ok (literalExpression (.double (P.convertFixedToFloating value (-scale))))
  | .null type =>
    if type = .i16 ∨ type = .i32 ∨ type = .i32 then .ok (literalExpression (.int64 0) true)
    else if type = .decimal ∨ type = .fp32 ∨ type = .fp64 then
      .ok (literalExpression (.double 0) true)
    else if type = .string then .ok (literalExpression (.string "") true)
    else .error (.invalidArgument
      ("SubstraitParser cannot parse null literal expression with type " ++ toString type.kindCase))
  | .other literalTypeCase => .error (.invalidArgument
      ("SubstraitParser cannot parse literal expression with type " ++ toString literalTypeCase))

variable {parsed : Expr LiteralValue}

lemma exists_of_parseLiteral {P : Parser} {literal : Literal}
    (h : parseLiteralExpression P literal = .ok parsed) :
    ∃ value isNull, parsed = literalExpression value isNull := by
  cases literal with
  | null type =>
    rw [parseLiteralExpression] at h
    split_ifs at h <;> exact ⟨_, _, (ok.inj h).symm⟩
  | other _ => cases h
  | _ => exact ⟨_, _, (ok.inj h).symm⟩

def substraitToCudfType : TypeKind → Except ParseError DataType
  | .bool => .ok .bool8
  | .i8 => .ok .int8
  | .i16 => .ok .int16
  | .i32 => .ok .int32
  | .i64 => .ok .int64
  | .fp32 => .ok .float32
  | .fp64 => .ok .float64
  | .string | .varchar => .ok .string
  | .date => .ok .timestampDays
  | .decimal => .ok .float64
  | .other kindCase => .error (.invalidArgument
      ("SubstraitParser cannot convert substrait type " ++ toString kindCase ++ " to cuDF type"))

def parseSelectionExpression : FieldReference → Except ParseError (Expr LiteralValue)
  | .indirect =>
    .error (.invalidArgument "Only direct reference is supported for selection expressions")
  | .otherSegment =>
    .error (.invalidArgument "Only struct field is supported for selection expressions")
  | .structField field hasChild =>
    if hasChild then .error (.invalidArgument "Does not support struct field with child")
    else .ok (.columnReference field)

/-! ### Scalar functions -/

/-- The numbers of `expression_type`. -/
def expressionType {V : Type*} : Expr V → Nat
  | .columnReference _ => 0
  | .literal _ _ _ => 1
  | .isNull _ => 2
  | .cast _ _ => 3
  | .ifThenElse _ _ _ => 4
  | .unaryOp _ _ => 5
  | .binaryOp _ _ _ => 6
  | .scalarFunction _ _ => 7
  | .inPredicate _ _ => 8

/-- The exceptions of `try_get_literal_value`. -/
def notALiteral (P : Parser) (e : Expr LiteralValue) : ParseError :=
  match e with
  | .literal type _ _ => .invalidArgument
      ("Either the expression output data type (" ++ P.typeToName type ++
        ") is not suported by try_get_literal_value(), or the type " ++ P.typeToName type ++
        " is incompatible with the template type")
  | e => .invalidArgument
      ("try_get_integral_value() expects literal expresion, but got expression type " ++
        toString (expressionType e))

/-- `try_get_literal_value<std::string>`. -/
def tryGetStringValue (P : Parser) : Expr LiteralValue → Except ParseError String
  | .literal _ (.string value) _ => .ok value
  | e => .error (notALiteral P e)

/-- `try_get_literal_value<std::int64_t>`. The cast of the pointer fails on the other integral
types, and its result is used without a test. -/
def tryGetInt64Value (P : Parser) : Expr LiteralValue → Except ParseError (BitVec 64)
  | .literal _ (.int64 value) _ => .ok value
  | .literal type value isNull =>
    if type.isIntegral then .error .nullPointer
    else .error (notALiteral P (.literal type value isNull))
  | e => .error (notALiteral P e)

/-- The conversion of a 64-bit integer to `cudf::size_type`. -/
def toSizeType (value : BitVec 64) : Int := (value.truncate 32).toInt

/-- `datetime_component_from_str`, with the numbers of `cudf::datetime::datetime_component`. -/
def datetimeComponentFromStr (s : String) : Except ParseError Nat :=
  let s := s.toLower
  if s = "year" then .ok 1
  else if s = "month" then .ok 2
  else if s = "day" then .ok 3
  else if s = "weekday" then .ok 4
  else if s = "hour" then .ok 5
  else if s = "minute" then .ok 6
  else if s = "second" then .ok 7
  else if s = "millisecond" then .ok 8
  else if s = "nanosecond" then .ok 10
  else .error (.invalidArgument ("Unsupported datetime component string: " ++ s))

inductive FunctionKind where
  | datepart | like | substr | round
  deriving DecidableEq

def nameToFkindMap (functionName : String) : Option FunctionKind :=
  if functionName = "date_part" then some .datepart
  else if functionName = "ilike" ∨ functionName = "like" then some .like
  else if functionName = "round" then some .round
  else if functionName = "substring" then some .substr
  else none

/-- The escape character of `like`, from the arguments after the pattern. -/
def escapeCharacter (P : Parser) : List (Expr LiteralValue) → Except ParseError String
  | [] => .ok ""
  | e :: _ => tryGetStringValue P e

/-- The functions of `name_to_fkind_map` on their parsed arguments. -/
def parseFunctionKind (P : Parser) (functionName : String) (fnKind : FunctionKind)
    (parsedArguments : List (Expr LiteralValue)) : Except ParseError (Expr LiteralValue) :=
  match fnKind, parsedArguments with
  | .datepart, [component, input] => do
    let componentStr ← tryGetStringValue P component
    let component ← datetimeComponentFromStr componentStr
    .ok (.scalarFunction (.datepart component) input)
  | .datepart, _ => .error .assertionFails
  | .like, input :: pattern :: escape =>
    if 1 < escape.length then
      .error (.invalidArgument ("like/ilike() expects 2 or 3 arguments. Got "
      ++ toString parsedArguments.length ++ " arguments"))
    else do
      let pattern ← tryGetStringValue P pattern
      let escapeChar ← escapeCharacter P escape
      .ok (.scalarFunction (.like pattern escapeChar (functionName = "ilike")) input)
  | .like, _ => .error (.invalidArgument ("like/ilike() expects 2 or 3 arguments. Got "
      ++ toString parsedArguments.length ++ " arguments"))
  | .round, [input, decimalPlaces] => do
    let decimalPlaces ← tryGetInt64Value P decimalPlaces
    .ok (.scalarFunction (.round (toSizeType decimalPlaces)) input)
  | .round, _ => .error (.invalidArgument ("round() currently only supports 2 arguments. Got " ++
      toString parsedArguments.length ++ " arguments"))
  | .substr, [input, start, length] => do
    let start ← tryGetInt64Value P start
    let length ← tryGetInt64Value P length
    .ok (.scalarFunction (.substr (toSizeType (start - 1)) (toSizeType length)) input)
  | .substr, _ => .error .assertionFails

/-- Every function is applied to one of its arguments. -/
lemma exists_of_parseFunctionKind {P : Parser} {functionName : String} {fnKind : FunctionKind}
    {arguments : List (Expr LiteralValue)}
    (h : parseFunctionKind P functionName fnKind arguments = .ok parsed) :
    ∃ fn, ∃ input ∈ arguments, parsed = .scalarFunction fn input := by
  unfold parseFunctionKind at h
  split at h
  · obtain ⟨_, -, h⟩ := bind_eq_ok h
    obtain ⟨_, -, h⟩ := bind_eq_ok h
    exact ⟨_, _, by simp, (ok.inj h).symm⟩
  · cases h
  · split_ifs at h
    obtain ⟨_, -, h⟩ := bind_eq_ok h
    obtain ⟨_, -, h⟩ := bind_eq_ok h
    exact ⟨_, _, by simp, (ok.inj h).symm⟩
  · cases h
  · obtain ⟨_, -, h⟩ := bind_eq_ok h
    exact ⟨_, _, by simp, (ok.inj h).symm⟩
  · cases h
  · obtain ⟨_, -, h⟩ := bind_eq_ok h
    obtain ⟨_, -, h⟩ := bind_eq_ok h
    exact ⟨_, _, by simp, (ok.inj h).symm⟩
  · cases h

/-- The functions of one argument. -/
def parseUnaryFunction (functionName : String) (input : Expr LiteralValue) :
    Except ParseError (Expr LiteralValue) :=
  if functionName = "not" then .ok (.unaryOp .not input)
  else if functionName = "is_null" then .ok (.isNull input)
  else if functionName = "is_not_null" then .ok (.unaryOp .not (.isNull input))
  else .error (.invalidArgument
    ("SubstraitParser cannot parse unary scalar function \"" ++ functionName ++ "\""))

/-- The functions of two arguments, with their operators. -/
def binaryFunctions : List (String × BinaryOp) :=
  [("equal", .equal), ("equal:any_any", .equal), ("not_equal", .notEqual),
    ("and", .nullLogicalAnd), ("and:bool", .nullLogicalAnd),
    ("or", .nullLogicalOr), ("or:bool", .nullLogicalOr),
    ("gt", .greater), ("gt:any_any", .greater), ("lt", .less), ("lt:any_any", .less),
    ("gte", .greaterEqual), ("gte:any_any", .greaterEqual),
    ("lte", .lessEqual), ("lte:any_any", .lessEqual), ("is_not_distinct_from", .nullEquals),
    ("add", .add), ("subtract", .sub), ("multiply", .mul), ("divide", .trueDiv)]

def binaryOperator (functionName : String) : Option BinaryOp :=
  (binaryFunctions.find? (·.1 = functionName)).map (·.2)

/-- The operator of a function of more than two arguments. -/
def associativeOperator (functionName : String) : Option BinaryOp :=
  if functionName = "and" ∨ functionName = "and:bool" then some .nullLogicalAnd
  else if functionName = "or" ∨ functionName = "or:bool" then some .nullLogicalOr
  else none

/-- The loop over the further arguments of a function of `nargs` arguments. The name is looked at
once an argument is parsed. -/
def parseFurtherArguments (functionName : String) (nargs : Nat) (outputExpr : Expr LiteralValue) :
    List (Except ParseError (Expr LiteralValue)) → Except ParseError (Expr LiteralValue)
  | [] => .ok outputExpr
  | argument :: arguments => do
    let rhs ← argument
    match associativeOperator functionName with
    | some op => parseFurtherArguments functionName nargs (.binaryOp op outputExpr rhs) arguments
    | none => .error (.invalidArgument ("Cannot find matching multi-argument scalar function \"" ++
        functionName ++ "\"" ++ " with " ++ toString nargs ++ " arguments"))

/-- `_parse_scalar_function_expression`, given what parsing each argument leads to. -/
def parseScalarFunction (P : Parser) (functionName : String)
    (arguments : List (Except ParseError (Expr LiteralValue))) :
    Except ParseError (Expr LiteralValue) :=
  match nameToFkindMap functionName with
  | some fnKind => do
    let parsedArguments ← arguments.mapM id
    parseFunctionKind P functionName fnKind parsedArguments
  | none =>
    match arguments with
    | [] => .error (.invalidArgument
        ("Cannot find matching ScalarFunction with less than 1 arguments: " ++ functionName))
    | [input] => do
      let input ← input
      parseUnaryFunction functionName input
    | [lhs, rhs] => do
      let lhs ← lhs
      let rhs ← rhs
      match binaryOperator functionName with
      | some op => .ok (.binaryOp op lhs rhs)
      | none => .error (.invalidArgument
          ("SubstraitParser cannot parse binary scalar function \"" ++ functionName ++ "\""))
    | first :: further => do
      let first ← first
      parseFurtherArguments functionName arguments.length first further

/-! ### Expressions -/

/-- `construct_or_eq_list_expression`, with the options from the last to the first. -/
def constructOrEqListExpression (value : Expr LiteralValue) :
    List (Expr LiteralValue) → Except ParseError (Expr LiteralValue)
  | [] => .error .emptyVector
  | [option] => .ok (.binaryOp .equal value option)
  | option :: options => do
    let rest ← constructOrEqListExpression value options
    .ok (.binaryOp .nullLogicalOr (.binaryOp .equal value option) rest)

mutual

def parseExpression (P : Parser) : Expression → Except ParseError (Expr LiteralValue)
  | .selection reference => parseSelectionExpression reference
  | .scalarFunction functionReference arguments => do
    let functionName ← P.getFunctionName functionReference
    parseScalarFunction P functionName (parseEach P arguments)
  | .literal literal => parseLiteralExpression P literal
  | .subquery => .error (.logicError "Subquery expression parser has not been implemented")
  | .ifThen ifs else_ =>
    if ifs.isEmpty then
      .error (.invalidArgument "IfThen expression must have at least one if clause")
    else do
      let elseExpr ← parseExpression P else_
      parseIfClauses P elseExpr ifs
  | .singularOrList value options => do
    let value ← parseExpression P value
    let options ← (parseEach P options).mapM id
    constructOrEqListExpression value options.reverse
  | .cast input type => do
    let inputExpr ← parseExpression P input
    let outputDataType ← substraitToCudfType type
    .ok (.cast inputExpr outputDataType)
  | .other rexTypeCase => .error (.invalidArgument
      ("SubstraitParser cannot parse expression with type " ++ toString rexTypeCase))

/-- What parsing each of some expressions leads to. -/
def parseEach (P : Parser) : List Expression → List (Except ParseError (Expr LiteralValue))
  | [] => []
  | e :: es => parseExpression P e :: parseEach P es

/-- The loop of `parse_if_then_expression`, from the last clause to the first. -/
def parseIfClauses (P : Parser) (elseExpr : Expr LiteralValue) :
    List IfClause → Except ParseError (Expr LiteralValue)
  | [] => .ok elseExpr
  | clause :: clauses => do
    let currentElse ← parseIfClauses P elseExpr clauses
    let (ifExpr, thenExpr) ← parseIfClause P clause
    .ok (.ifThenElse ifExpr thenExpr currentElse)

def parseIfClause (P : Parser) :
    IfClause → Except ParseError (Expr LiteralValue × Expr LiteralValue)
  | .mk if_ then_ => do
    let ifExpr ← parseExpression P if_
    let thenExpr ← parseExpression P then_
    .ok (ifExpr, thenExpr)

end

lemma parseEach_eq_map (P : Parser) : ∀ es : List Expression,
    parseEach P es = es.map (parseExpression P)
  | [] => by simp [parseEach]
  | e :: es => by rw [parseEach, parseEach_eq_map P es, List.map_cons]

end Substrait

end Gqe
