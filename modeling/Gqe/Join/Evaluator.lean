import Gqe.Lib.Fallible
import Gqe.Relation

/-!
# Evaluation of expressions

`expression_evaluator` and `evaluate_expressions` (`executor/eval.cpp`). A visitor turns an
expression into tasks: parts of it that `cudf::ast` can compute become one task, and what
`cudf::ast` does not know becomes a task of its own, over the columns of the tasks before it.
Columns are taken from an offset on, but the types that decide between the two are looked up with
the column indices as they are.
-/

namespace Gqe

variable {V : Type}

mutual

lemma Expr.rename_id : ∀ e : Expr V, e.rename id = e
  | .columnReference _ | .literal _ _ _ => rfl
  | .isNull e | .cast e _ | .unaryOp _ e | .scalarFunction _ e => by simp [e.rename_id]
  | .binaryOp _ l r => by simp [l.rename_id, r.rename_id]
  | .ifThenElse c t e => by simp [c.rename_id, t.rename_id, e.rename_id]
  | .inPredicate es _ => by simp [renameList_id es]

lemma Expr.renameList_id : ∀ es : List (Expr V), renameList id es = es
  | [] => rfl
  | e :: es => by simp [e.rename_id, renameList_id es]

end

lemma Expr.rename_sub_zero (e : Expr V) : e.rename (· - 0) = e := e.rename_id

/-- The expressions whose types the visitors of `expression_evaluator` ask for. -/
def Expr.lookups : Expr V → List (Expr V)
  | .ifThenElse c t e => [c, t, e] ++ c.lookups ++ t.lookups ++ e.lookups
  | .unaryOp op e => e.lookups ++ [.unaryOp op e]
  | .binaryOp op l r => l.lookups ++ r.lookups ++ [.binaryOp op l r, l, r]
  | .isNull e | .cast e _ | .scalarFunction _ e => e.lookups
  | _ => []

namespace Join

/-- What ends a task early: an exception, or a read beyond the end of a vector. -/
inductive Failure where
  | throws (what : String)
  | outOfBounds
  deriving DecidableEq

open Fallible List Expr Except

/-! ### Types -/

/-- `arithmetic_output_type`. -/
def arithmeticType (left right : DataType) : Except Failure DataType :=
  match arithmeticOutputType left right with
  | some type => .ok type
  | none => .error (.throws "Encountered unsupported types for arithmatic binary expressions")

/-- `binary_op_expression::data_type`, given the types of the operands. -/
def binaryType (op : BinaryOp) (left right : Except Failure DataType) : Except Failure DataType :=
  match op with
  | .add | .sub | .mul => do arithmeticType (← left) (← right)
  | .trueDiv => .ok .float64
  | _ => .ok .bool8

/-- `expression::data_type`, which reads the vector of types without a check. -/
def lookUpType (types : List DataType) : Expr V → Except Failure DataType
  | .columnReference i =>
    match types[i]? with
    | some type => .ok type
    | none => .error .outOfBounds
  | .literal type _ _ => .ok type
  | .isNull _ | .inPredicate _ _ => .ok .bool8
  | .cast _ outType => .ok outType
  | .ifThenElse _ thenExpr elseExpr => do
    let type ← lookUpType types thenExpr
    let _ ← lookUpType types elseExpr
    .ok type
  | .unaryOp op child => if op = .not then .ok .bool8 else lookUpType types child
  | .binaryOp op lhs rhs => binaryType op (lookUpType types lhs) (lookUpType types rhs)
  | .scalarFunction fn child =>
    match fn with
    | .datepart _ => .ok .int16
    | .like _ _ _ => .ok .bool8
    | .round _ => lookUpType types child
    | .substr _ _ => .ok .string

lemma dataType_of_binaryType {op : BinaryOp} {left right : Except Failure DataType}
    {type : DataType} {l r : Option DataType} (hl : ∀ t, left = .ok t → l = some t)
    (hr : ∀ t, right = .ok t → r = some t) (h : binaryType op left right = .ok type) :
    op.dataType l r = some type := by
  have harith : ∀ op', op' = BinaryOp.add ∨ op' = .sub ∨ op' = .mul →
      binaryType op' left right = .ok type → op'.dataType l r = some type := by
    rintro op' hop h
    have h : (do arithmeticType (← left) (← right)) = .ok type := by
      rcases hop with rfl | rfl | rfl <;> exact h
    obtain ⟨tl, htl, h⟩ := bind_eq_ok h
    obtain ⟨tr, htr, h⟩ := bind_eq_ok h
    have harith : arithmeticOutputType tl tr = some type := by
      unfold arithmeticType at h
      split at h
      · rename_i heq
        rw [heq, ok.inj h]
      · cases h
    rcases hop with rfl | rfl | rfl <;> simp [BinaryOp.dataType, hl tl htl, hr tr htr, harith]
  cases op with
  | add => exact harith _ (.inl rfl) h
  | sub => exact harith _ (.inr (.inl rfl)) h
  | mul => exact harith _ (.inr (.inr rfl)) h
  | _ => exact congrArg some (ok.inj h)

/-- A type that is found is that of the expression. -/
lemma dataType_of_lookUpType {types : List DataType} {type : DataType} : ∀ {e : Expr V},
    lookUpType types e = .ok type → e.dataType (types.getD · .empty) = some type
  | .columnReference i, h => by
    unfold lookUpType at h
    split at h
    · rename_i heq
      obtain rfl := ok.inj h
      simp [heq]
    · cases h
  | .literal _ _ _, h | .isNull _, h | .inPredicate _ _, h | .cast _ _, h =>
    congrArg some (ok.inj h)
  | .ifThenElse _ t e, h => by
    obtain ⟨type', ht, h⟩ := bind_eq_ok h
    obtain ⟨_, -, h⟩ := bind_eq_ok h
    obtain rfl := ok.inj h
    exact @dataType_of_lookUpType _ _ t ht
  | .unaryOp op e, h => by
    rw [lookUpType] at h
    rw [dataType]
    split_ifs at h ⊢
    · exact congrArg some (ok.inj h)
    · exact dataType_of_lookUpType h
  | .binaryOp op l r, h =>
    dataType_of_binaryType (fun _ => dataType_of_lookUpType) (fun _ => dataType_of_lookUpType) h
  | .scalarFunction fn e, h => by
    cases fn with
    | round => exact @dataType_of_lookUpType _ _ e h
    | _ => exact congrArg some (ok.inj h)

/-! ### The visitor -/

/-- `cudf_to_ast_operator` finds a binary operator. The plain connectives have no counterpart. -/
def BinaryOp.hasAstOperator : BinaryOp → Bool
  | .logicalAnd | .logicalOr => false
  | _ => true

def unableToConvert : Failure :=
  .throws ("Unable to convert cudf::\x7bunary|binary\x7d_operator to " ++ "cudf::ast::ast_operator")

/-- The types with a literal in `expression_evaluator`. -/
def hasLiteralContext : DataType → Bool
  | .int8 | .int32 | .int64 | .float32 | .float64 | .string | .timestampDays => true
  | _ => false

/-- The types of the columns of the tasks, or the exceptions they end with, in their order. -/
abbrev Tasks := List (Except Failure DataType)

/-- What is computed for an expression: the type that the engine gives it over the columns it reads,
and its value in each row of the table. -/
structure Column (V : Type) where
  gqeType : Option DataType
  value : Row V → Option V

namespace Column

variable [LinearOrder V] (C : Cudf V)

def unaryOp (op : UnaryOp) (child : Column V) : Column V where
  gqeType := if op = .not then some .bool8 else child.gqeType
  value r := C.unaryOp op child.gqeType (child.value r)

def isNull (child : Column V) : Column V where
  gqeType := some .bool8
  value r := some (C.ofBool (child.value r).isNone)

def binaryOp (op : BinaryOp) (lhs rhs : Column V) : Column V where
  gqeType := op.dataType lhs.gqeType rhs.gqeType
  value r := C.binaryOp op lhs.gqeType rhs.gqeType (lhs.value r) (rhs.value r)

def copyIfElse (condition lhs rhs : Column V) : Column V where
  gqeType := lhs.gqeType
  value r := if C.toBool (condition.value r) = some true then lhs.value r else rhs.value r

def cast (outType : DataType) (child : Column V) : Column V where
  gqeType := some outType
  value r := (child.value r).map (C.cast child.gqeType outType)

def scalarFunction (fn : ScalarFunction) (child : Column V) : Column V where
  gqeType := fn.dataType child.gqeType
  value r := (child.value r).map (C.scalarFunction fn)

end Column

/-- `evaluation_context`. The column of a task is passed on, and not read back from the table that
it is appended to. -/
structure EvaluationContext (V : Type) where
  /-- The expression over the columns of the table and the tasks. -/
  gqeExpression : Expr V
  columnIdx : Option Nat := none
  hasAst : Bool := false
  isScalar : Bool := false
  /-- The type that cuDF gives the column or the `cudf::ast` expression. -/
  type : Except Failure DataType
  column : Column V

namespace EvaluationContext

/-- What stands for a context in the expression of its parent. -/
def operand (context : EvaluationContext V) : Expr V :=
  match context.columnIdx with
  | some i => .columnReference i
  | none => context.gqeExpression

/-- A task as `evaluate` runs it. A literal without a fixed width is expanded to a column. -/
def task (types : List DataType) (context : EvaluationContext V) : Except Failure DataType :=
  if context.hasAst then do
    let type ← lookUpType types context.gqeExpression
    if type.isFixedWidth then context.type else .ok type
  else context.type

def dispatchTask (types : List DataType) (context : EvaluationContext V) (tasks : Tasks) :
    EvaluationContext V × Tasks :=
  match context.columnIdx with
  | some _ => (context, tasks)
  | none =>
    ({ context with columnIdx := some (types.length + tasks.length), type := context.task types },
      tasks ++ [context.task types])

/-- Operands that may be scalars are dispatched unless they are. -/
def dispatchColumn (types : List DataType) (context : EvaluationContext V) (tasks : Tasks) :
    EvaluationContext V × Tasks :=
  if context.isScalar then (context, tasks) else context.dispatchTask types tasks

end EvaluationContext

/-- What `evaluate` throws for a scalar function in the fallback path. -/
def scalarFunctionThrows : ScalarFunction → Option String
  | .like _ _ true => some "Evaluating ILIKE expression not implemented"
  | .round _ => some "Unable to evaluate `scalar_function_expression` "
  | _ => none

variable [LinearOrder V] (C : Cudf V) (types : List DataType) (columnReferenceOffset : Nat)

/-- The type of what a call on the columns of some contexts returns. -/
def call (operation : CudfCall) (operands : List (EvaluationContext V)) :
    Except Failure DataType := do
  let operandTypes ← operands.mapM (·.type)
  (C.resultType operation operandTypes).mapError .throws

/-- A binary operator is left to `cudf::ast` if its operands have the same type. -/
def canUseCudfAst (op : BinaryOp) (lhs rhs : Expr V) : Except Failure Bool := do
  let type ← lookUpType types (.binaryOp op lhs rhs)
  if type.isFixedWidth then .ok ((← lookUpType types lhs) == (← lookUpType types rhs))
  else .ok false

/-- The visitor of `expression_evaluator`. The texts of exceptions go without the expressions that
they quote. An index outside of the table ends in an exception when its column is read. -/
def visit : Expr V → Tasks → Except Failure (EvaluationContext V × Tasks)
  | .columnReference i, tasks =>
    if columnReferenceOffset ≤ i ∧ i - columnReferenceOffset < types.length then
      let columnId := i - columnReferenceOffset
      let type := types.getD columnId .empty
      .ok ({ gqeExpression := .columnReference columnId, columnIdx := some columnId, hasAst := true,
             type := .ok type, column := ⟨some type, (·.col columnId)⟩ }, tasks)
    else .error (.throws "vector::_M_range_check")
  | .literal type value null, tasks =>
    if hasLiteralContext type then
      .ok ({ gqeExpression := .literal type value null, hasAst := true, isScalar := true,
             type := .ok type, column := ⟨some type, fun _ => if null then none else some value⟩ },
        tasks)
    else .error (.throws "Visiting a generic literal_expression<T> is not implemented")
  | .unaryOp op child, tasks => do
    let (context, tasks) ← visit child tasks
    let type ← lookUpType types (.unaryOp op child)
    if type.isFixedWidth then
      if op = .not then
        .ok ({ gqeExpression := .unaryOp op context.operand, hasAst := true,
               type := call C .astNot [context], column := context.column.unaryOp C op }, tasks)
      else .error unableToConvert
    else
      let (context, tasks) := context.dispatchTask types tasks
      .ok (EvaluationContext.dispatchTask types
        { gqeExpression := .unaryOp op context.operand
          type := call C (.unaryOperation op) [context]
          column := context.column.unaryOp C op } tasks)
  | .isNull child, tasks => do
    let (context, tasks) ← visit child tasks
    .ok ({ gqeExpression := .isNull context.operand, hasAst := true,
           type := call C .astIsNull [context], column := context.column.isNull C }, tasks)
  | .binaryOp op lhs rhs, tasks => do
    let (left, tasks) ← visit lhs tasks
    let (right, tasks) ← visit rhs tasks
    if ← canUseCudfAst types op lhs rhs then
      if BinaryOp.hasAstOperator op then
        .ok ({ gqeExpression := .binaryOp op left.operand right.operand, hasAst := true,
               type := call C (.astBinary op) [left, right],
               column := left.column.binaryOp C op right.column }, tasks)
      else .error unableToConvert
    else if left.isScalar && right.isScalar then
      .error (.throws "Unable to evaluate cudf::binary_operation on two cudf::scalars in ")
    else
      let (left, tasks) := left.dispatchColumn types tasks
      let (right, tasks) := right.dispatchColumn types tasks
      .ok (EvaluationContext.dispatchTask types
        { gqeExpression := .binaryOp op left.operand right.operand
          type := do
            call C (.binaryOperation op (← binaryType op left.type right.type)) [left, right]
          column := left.column.binaryOp C op right.column } tasks)
  | .ifThenElse ifExpr thenExpr elseExpr, tasks => do
    let ifType ← lookUpType types ifExpr
    if ifType ≠ .bool8 then .error (.throws "Cannot convert  to boolean")
    else
      let thenType ← lookUpType types thenExpr
      let elseType ← lookUpType types elseExpr
      if thenType ≠ elseType then .error (.throws "Column types of  and  must be equal")
      else
        let (condition, tasks) ← visit ifExpr tasks
        let (condition, tasks) := condition.dispatchTask types tasks
        let (left, tasks) ← visit thenExpr tasks
        let (left, tasks) := left.dispatchColumn types tasks
        let (right, tasks) ← visit elseExpr tasks
        let (right, tasks) := right.dispatchColumn types tasks
        .ok (EvaluationContext.dispatchTask types
          { gqeExpression := .ifThenElse condition.operand left.operand right.operand
            type := call C .copyIfElse [condition, left, right]
            column := condition.column.copyIfElse C left.column right.column } tasks)
  | .cast child outType, tasks => do
    let (context, tasks) ← visit child tasks
    if outType = .int64 ∨ outType = .uint64 ∨ outType = .float64 then
      .ok ({ gqeExpression := .cast context.operand outType, hasAst := true,
             type := call C (.astCast outType) [context],
             column := context.column.cast C outType }, tasks)
    else
      let (context, tasks) := context.dispatchTask types tasks
      .ok (EvaluationContext.dispatchTask types
        { gqeExpression := .cast context.operand outType
          type := call C (.cast outType) [context]
          column := context.column.cast C outType } tasks)
  | .scalarFunction fn child, tasks => do
    let (context, tasks) ← visit child tasks
    let (context, tasks) := context.dispatchTask types tasks
    .ok (EvaluationContext.dispatchTask types
      { gqeExpression := .scalarFunction fn context.operand
        type := match scalarFunctionThrows fn with
          | some what => .error (.throws what)
          | none => call C (.scalarFunction fn) [context]
        column := context.column.scalarFunction C fn } tasks)
  | .inPredicate _ _, _ => .error (.throws "Visiting subquery_expression is not implemented")

/-- `expression_evaluator`: the type of the column, and its value in a row. The last cast is to the
type that is looked up for the expression; one to the type that the engine gives it anyway, since
cuDF computes in a narrower one, does not change a value. -/
def expressionEvaluator (e : Expr V) : Except Failure (DataType × (Row V → Option V)) := do
  let (context, tasks) ← visit C types columnReferenceOffset e []
  let (context, tasks) := context.dispatchTask types tasks
  let _ ← tasks.mapM id
  let type ← context.type
  let expectedType ← lookUpType types e
  if type = expectedType ∨ context.column.gqeType = some expectedType then
    .ok (expectedType, context.column.value)
  else .ok (expectedType, (context.column.cast C expectedType).value)

/-- The turn of the loop of `evaluate_expressions` for an expression. -/
def evaluateExpression (table : Table V) (columnReferenceOffset : Nat) (e : Expr V) :
    Except Failure (DataType × (Row V → Option V)) :=
  match e with
  | .columnReference i =>
    if i < columnReferenceOffset then
      .error (.throws ("Invalid column index and offset combination in expression: " ++
        "column_reference(" ++ toString i ++ ")"))
    else if i - columnReferenceOffset < table.numColumns then
      .ok (table.typeOf (i - columnReferenceOffset), (·.col (i - columnReferenceOffset)))
    else .error (.throws "vector::_M_range_check")
  | e =>
    if table.rows = [] then do .ok (← lookUpType table.types e, fun _ => none)
    else expressionEvaluator C table.types columnReferenceOffset e

/-- The key columns of a table, by rows. -/
structure KeyTable (V : Type) where
  types : List DataType
  rows : List (Row V)

def evaluateExpressions (table : Table V) (columnReferenceOffset : Nat) (exprs : List (Expr V)) :
    Except Failure (KeyTable V) := do
  let columns ← exprs.mapM (evaluateExpression C table columnReferenceOffset)
  .ok ⟨columns.map (·.1), table.rows.map fun r => columns.map (·.2 r)⟩

/-! ### Values -/

section Values

variable {C} {types} {offset : Nat} {tasks tasks' : Tasks}
  {context context' : EvaluationContext V}

/-- The column of an expression over the columns of the table. -/
def Column.of (C : Cudf V) (types : List DataType) (e : Expr V) : Column V where
  gqeType := e.dataType (types.getD · .empty)
  value := (e.eval C (types.getD · .empty) ·)

omit [LinearOrder V] in
lemma column_of_dispatchTask (h : context.dispatchTask types tasks = (context', tasks')) :
    context'.column = context.column := by
  unfold EvaluationContext.dispatchTask at h
  split at h <;> rw [← congrArg (·.1.column) h]

omit [LinearOrder V] in
lemma column_of_dispatchColumn (h : context.dispatchColumn types tasks = (context', tasks')) :
    context'.column = context.column := by
  unfold EvaluationContext.dispatchColumn at h
  split_ifs at h
  · rw [(Prod.mk.inj h).1]
  · exact column_of_dispatchTask h

/-- Whatever tasks an expression is turned into, they compute the expression with
shifted columns. -/
lemma column_of_visit : ∀ {e : Expr V} {tasks tasks'} {context : EvaluationContext V},
    visit C types offset e tasks = .ok (context, tasks') →
      context.column = .of C types (e.rename (· - offset))
  | .columnReference i, _, _, _, h => by
    rw [visit] at h
    split_ifs at h
    rw [← congrArg (·.1.column) (ok.inj h)]
    rfl
  | .literal _ _ _, _, _, _, h => by
    rw [visit] at h
    split at h
    · rw [← congrArg (·.1.column) (ok.inj h)]
      rfl
    · cases h
  | .unaryOp op child, _, _, _, h => by
    obtain ⟨⟨c, tasks⟩, hc, h⟩ := bind_eq_ok h
    obtain ⟨type, -, h⟩ := bind_eq_ok h
    have hcolumn : c.column.unaryOp C op =
        .of C types ((child.unaryOp op).rename (· - offset)) := by
      rw [column_of_visit hc]
      rfl
    rcases hc' : c.dispatchTask types tasks with ⟨c', tasks'⟩
    simp only [hc'] at h
    split_ifs at h
    · rw [← congrArg (·.1.column) (ok.inj h), hcolumn]
    · rw [column_of_dispatchTask (ok.inj h), column_of_dispatchTask hc', hcolumn]
  | .isNull child, _, _, _, h => by
    obtain ⟨⟨c, tasks⟩, hc, h⟩ := bind_eq_ok h
    rw [← congrArg (·.1.column) (ok.inj h), column_of_visit hc]
    rfl
  | .binaryOp op lhs rhs, _, _, _, h => by
    obtain ⟨⟨l, tasks⟩, hl, h⟩ := bind_eq_ok h
    obtain ⟨⟨r, tasks₁⟩, hr, h⟩ := bind_eq_ok h
    obtain ⟨useAst, -, h⟩ := bind_eq_ok h
    have hcolumn : l.column.binaryOp C op r.column =
        .of C types ((lhs.binaryOp op rhs).rename (· - offset)) := by
      rw [column_of_visit hl, column_of_visit hr]
      rfl
    rcases hl' : l.dispatchColumn types tasks₁ with ⟨l', tasks₂⟩
    rcases hr' : r.dispatchColumn types tasks₂ with ⟨r', tasks₃⟩
    simp only [hl', hr'] at h
    split_ifs at h
    · rw [← congrArg (·.1.column) (ok.inj h), hcolumn]
    · rw [column_of_dispatchTask (ok.inj h), column_of_dispatchColumn hl',
        column_of_dispatchColumn hr', hcolumn]
  | .ifThenElse c t e, _, _, _, h => by
    obtain ⟨ifType, -, h⟩ := bind_eq_ok h
    split_ifs at h
    obtain ⟨thenType, -, h⟩ := bind_eq_ok h
    obtain ⟨elseType, -, h⟩ := bind_eq_ok h
    split_ifs at h
    obtain ⟨⟨condition, tasks⟩, hc, h⟩ := bind_eq_ok h
    rcases hc' : condition.dispatchTask types tasks with ⟨condition', tasks₁⟩
    simp only [hc'] at h
    obtain ⟨⟨l, tasks₂⟩, hl, h⟩ := bind_eq_ok h
    rcases hl' : l.dispatchColumn types tasks₂ with ⟨l', tasks₃⟩
    simp only [hl'] at h
    obtain ⟨⟨r, tasks₄⟩, hr, h⟩ := bind_eq_ok h
    rcases hr' : r.dispatchColumn types tasks₄ with ⟨r', tasks₅⟩
    simp only [hr'] at h
    rw [column_of_dispatchTask (ok.inj h), column_of_dispatchTask hc', column_of_dispatchColumn hl',
      column_of_dispatchColumn hr', column_of_visit hc, column_of_visit hl, column_of_visit hr]
    rfl
  | .cast child outType, _, _, _, h => by
    obtain ⟨⟨c, tasks⟩, hc, h⟩ := bind_eq_ok h
    have hcolumn : c.column.cast C outType =
        .of C types ((child.cast outType).rename (· - offset)) := by
      rw [column_of_visit hc]
      rfl
    rcases hc' : c.dispatchTask types tasks with ⟨c', tasks'⟩
    simp only [hc'] at h
    split_ifs at h
    · rw [← congrArg (·.1.column) (ok.inj h), hcolumn]
    · rw [column_of_dispatchTask (ok.inj h), column_of_dispatchTask hc', hcolumn]
  | .scalarFunction fn child, _, _, _, h => by
    obtain ⟨⟨c, tasks⟩, hc, h⟩ := bind_eq_ok h
    rcases hc' : c.dispatchTask types tasks with ⟨c', tasks'⟩
    simp only [hc'] at h
    rw [column_of_dispatchTask (ok.inj h), column_of_dispatchTask hc', column_of_visit hc]
    rfl

/-- A key that is computed with the type it has is the value of the expression. -/
lemma value_of_expressionEvaluator {e : Expr V} {column : DataType × (Row V → Option V)}
    (hsame : ∀ type, lookUpType types e = .ok type →
      lookUpType types (e.rename (· - offset)) = .ok type)
    (h : expressionEvaluator C types offset e = .ok column) (r : Row V) :
    column.2 r = (e.rename (· - offset)).eval C (types.getD · .empty) r := by
  obtain ⟨⟨context, tasks⟩, hvisit, h⟩ := bind_eq_ok h
  rcases hroot : context.dispatchTask types tasks with ⟨root, tasks'⟩
  simp only [hroot] at h
  obtain ⟨_, -, h⟩ := bind_eq_ok h
  obtain ⟨type, -, h⟩ := bind_eq_ok h
  obtain ⟨expectedType, hexpected, h⟩ := bind_eq_ok h
  have hcolumn := (column_of_dispatchTask hroot).trans (column_of_visit hvisit)
  have hgqe : root.column.gqeType = some expectedType := by
    rw [hcolumn]
    exact dataType_of_lookUpType (hsame _ hexpected)
  rw [if_pos (.inr hgqe)] at h
  obtain rfl := ok.inj h
  exact congrArg (·.value r) hcolumn

end Values

/-! ### Shifted columns -/

section Shifted

variable {C} {types} {offset : Nat} {table : Table V} {e : Expr V}

/-- The visitor does the same with an offset and with shifted columns if types are looked
up alike. -/
lemma visit_rename : ∀ {e : Expr V}, (∀ i ∈ e.columns, offset ≤ i) →
    (∀ s ∈ e.lookups, lookUpType types s = lookUpType types (s.rename (· - offset))) →
    ∀ tasks, visit C types offset e tasks = visit C types 0 (e.rename (· - offset)) tasks
  | .columnReference i, hle, _, tasks => by
    have hi : offset ≤ i := hle i mem_cons_self
    simp [visit, hi]
  | .literal _ _ _, _, _, _ | .inPredicate _ _, _, _, _ => rfl
  | .isNull e, hle, h, tasks | .cast e _, hle, h, tasks | .scalarFunction _ e, hle, h, tasks => by
    simp only [visit, rename, visit_rename (e := e) hle h]
  | .unaryOp op e, hle, h, tasks => by
    simp only [lookups, forall_mem_append, forall_mem_singleton] at h
    have hown := h.2
    simp only [rename] at hown
    simp only [visit, rename, visit_rename (e := e) hle h.1, hown]
  | .binaryOp op l r, hle, h, tasks => by
    simp only [columns, lookups, forall_mem_append, forall_mem_cons] at hle h
    obtain ⟨⟨hl, hr⟩, hown, hltype, hrtype, -⟩ := h
    simp only [rename] at hown
    simp only [visit, rename, visit_rename hle.1 hl, visit_rename hle.2 hr, canUseCudfAst, hown,
      hltype, hrtype]
  | .ifThenElse c t e, hle, h, tasks => by
    simp only [columns, lookups, forall_mem_append, forall_mem_cons] at hle h
    obtain ⟨⟨⟨⟨hctype, httype, hetype, -⟩, hc⟩, ht⟩, he⟩ := h
    simp only [visit, rename, visit_rename hle.1.1 hc, visit_rename hle.1.2 ht,
      visit_rename hle.2 he, hctype, httype, hetype]

/-- The types that are asked for are the same before and after the columns are shifted. -/
def LooksUpShifted (table : Table V) (offset : Nat) (e : Expr V) : Prop :=
  (∃ i, e = .columnReference i) ∨ ∀ s ∈ e :: e.lookups, (table.rows = [] → s = e) →
    lookUpType table.types s = lookUpType table.types (s.rename (· - offset))

lemma evaluate_computed (href : ¬ ∃ i, e = .columnReference i) :
    evaluateExpression C table offset e = if table.rows = []
      then lookUpType table.types e >>= fun type => .ok (type, fun _ => none)
      else expressionEvaluator C table.types offset e := by
  cases e with
  | columnReference i => exact absurd ⟨i, rfl⟩ href
  | _ => rfl

lemma evaluate_rename (hle : ∀ i ∈ e.columns, offset ≤ i)
    (h : LooksUpShifted table offset e) : evaluateExpression C table offset e =
      evaluateExpression C table 0 (e.rename (· - offset)) := by
  by_cases href : ∃ i, e = .columnReference i
  · obtain ⟨i, rfl⟩ := href
    have hi : ¬ i < offset := Nat.not_lt.2 (hle i mem_cons_self)
    simp [evaluateExpression, hi]
  have hsame := h.resolve_left href
  have href' : ¬ ∃ i, e.rename (· - offset) = .columnReference i := by
    cases e <;> simp_all
  have hown := hsame e mem_cons_self fun _ => rfl
  rw [evaluate_computed href, evaluate_computed href']
  split_ifs with hemp
  · rw [hown]
  · have hlookups : ∀ s ∈ e.lookups, lookUpType table.types s =
        lookUpType table.types (s.rename (· - offset)) :=
      fun s hs => hsame s (mem_cons_of_mem _ hs) fun hnil => absurd hnil hemp
    rw [expressionEvaluator, expressionEvaluator, visit_rename hle hlookups, hown]

/-- Evaluating with an offset is evaluating with shifted columns if types are looked up alike. -/
theorem evaluateExpressions_rename {exprs : List (Expr V)}
    (hle : ∀ e ∈ exprs, ∀ i ∈ e.columns, offset ≤ i)
    (h : ∀ e ∈ exprs, LooksUpShifted table offset e) : evaluateExpressions C table offset exprs =
      evaluateExpressions C table 0 (exprs.map (rename (· - offset))) := by
  have hmap : exprs.mapM (evaluateExpression C table offset) =
      (exprs.map (rename (· - offset))).mapM (evaluateExpression C table 0) := by
    rw [mapM_map]
    exact mapM_congr fun e he => evaluate_rename (hle e he) (h e he)
  rw [evaluateExpressions, hmap]
  rfl

/-- The second column of the two inputs together, plus one. -/
def successor : Expr Int := .binaryOp .add (.columnReference 1) (.literal .int64 1 false)

/-- A row of an integer and of a value of some type. -/
def oneRowOf (type : DataType) : Table Int where
  types := [.int64, type]
  rows := [[some 1, some 2]]
  length_row := by simp
  rows_of_no_columns := by simp

theorem evaluateExpressions_rename_successor :
    evaluateExpressions .integers (oneRowOf .int64) 1 [successor] =
    evaluateExpressions .integers (oneRowOf .int64) 0 [successor.rename (· - 1)] :=
  evaluateExpressions_rename (by decide) (by
    simp only [forall_mem_singleton]
    refine .inr ?_
    simp only [successor, lookups, nil_append, forall_mem_cons]
    exact ⟨fun _ => rfl, fun _ => rfl, fun _ => rfl, fun _ => rfl, forall_mem_nil _⟩)

theorem evaluateExpressions_rename_string :
    evaluateExpressions .integers (oneRowOf .string) 1 [successor] =
        .error (.throws "Encountered unsupported types for arithmatic binary expressions") ∧
    evaluateExpressions .integers (oneRowOf .string) 0 [successor.rename (· - 1)] =
        .ok ⟨[.int64], [[some 2]]⟩ :=
  ⟨rfl, rfl⟩

end Shifted

end Join

end Gqe
