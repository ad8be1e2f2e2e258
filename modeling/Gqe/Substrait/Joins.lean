import Gqe.Join.Keys
import Gqe.Substrait.Columns

/-!
# Joins

A Substrait join on its way through the parser (`logical/from_substrait.cpp`) to the join task,
which evaluates the first operand of every equality on its left input and the second one on its
right input (`include/gqe/executor/join.hpp`).
-/

namespace Gqe.Substrait

open Fallible List Except

/-! ### Parsing -/

/-- `substrait::JoinRel_JoinType`, with the types the parser refuses by number. -/
inductive JoinRelType where
  | inner | outer | left | leftSingle | leftSemi | leftAnti
  | other (number : Nat)
  deriving DecidableEq

/-- `substrait::JoinRel`, with the numbers of columns of its inputs. -/
structure JoinRel where
  leftNumColumns : Nat
  rightNumColumns : Nat
  type : JoinRelType
  expression : Option Expression
  postJoinFilter : Option Expression

/-- A `join_relation`, and the condition of the filter around it if there is one. -/
structure ParsedJoin where
  condition : Expr LiteralValue
  joinType : JoinType
  projectionIndices : List Nat
  joinFilter : Option (Expr LiteralValue)

/-- The switch over the type in `parse_join_relation`. -/
def JoinRelType.parse : JoinRelType → Except ParseError JoinType
  | .inner => .ok .inner
  | .outer => .ok .full
  | .left => .ok .left
  | .leftSingle => .ok .single
  | .leftSemi => .ok .leftSemi
  | .leftAnti => .ok .leftAnti
  | .other number =>
    .error (.invalidArgument ("SubstraitParser: unsupported join type " ++ toString number))

def numColumnsJoinResult (numColumnsLeft numColumnsRight : Nat) : JoinType → Nat
  | .inner | .full | .left | .single => numColumnsLeft + numColumnsRight
  | .leftSemi | .leftAnti => numColumnsLeft

/-- The condition of a join, which is TRUE if none is given. -/
def parseJoinExpression (P : Parser) : Option Expression → Except ParseError (Expr LiteralValue)
  | some expression => parseExpression P expression
  | none => .ok (literalExpression (.bool true))

/-- The condition of the filter around a join. -/
def parsePostJoinFilter (P : Parser) :
    Option Expression → Except ParseError (Option (Expr LiteralValue))
  | some expression => some <$> parseExpression P expression
  | none => .ok none

/-- `parse_join_relation`, once the inputs are parsed. -/
def parseJoinRelation (P : Parser) (rel : JoinRel) : Except ParseError ParsedJoin := do
  let joinType ← rel.type.parse
  if rel.expression.isNone && rel.postJoinFilter.isNone then .error .assertionFails
  else
    let joinCondition ← parseJoinExpression P rel.expression
    let numOutputColumns :=
      numColumnsJoinResult rel.leftNumColumns rel.rightNumColumns joinType
    let joinFilter ← parsePostJoinFilter P rel.postJoinFilter
    .ok ⟨joinCondition, joinType, List.range numOutputColumns, joinFilter⟩

/-! ### Equalities -/

variable {V : Type}

/-- The operands of the equalities that a join task takes out of a condition. -/
def equalities : Expr V → List (Expr V × Expr V)
  | .binaryOp .equal left right => [(left, right)]
  | .binaryOp .nullEquals left right => [(left, right)]
  | .binaryOp .logicalAnd left right => equalities left ++ equalities right
  | .binaryOp .nullLogicalAnd left right => equalities left ++ equalities right
  | _ => []

/-- The join task evaluates the first operands of the equalities on its left input, and the second
ones on its right input. -/
lemma keyExprs_parseJoinCondition {keys keys' : Join.JoinKeys V} {condition : Expr V}
    (h : Join.parseJoinCondition keys condition = .ok keys') :
    keys'.leftKeyExprs = keys.leftKeyExprs ++ (equalities condition).map (·.1) ∧
      keys'.rightKeyExprs = keys.rightKeyExprs ++ (equalities condition).map (·.2) := by
  fun_induction Join.parseJoinCondition keys condition generalizing keys' with
  | case1 | case2 =>
    unfold Join.JoinKeys.addKeys Join.JoinKeys.updateNullEquality at h
    split_ifs at h
    obtain rfl := ok.inj h
    exact ⟨rfl, rfl⟩
  | case3 keys left right ihl ihr | case4 keys left right ihl ihr =>
    obtain ⟨keys₁, h₁, h⟩ := bind_eq_ok h
    simp [equalities, ihr keys₁ h, ihl h₁]
  | case5 keys condition =>
    obtain rfl := ok.inj h
    unfold equalities
    split <;> simp_all

/-- The first operand only refers to the left input, the second one to the right input. -/
@[simp] def OperandsOriented (leftNumColumns rightNumColumns : Nat) (left right : List Nat) :
    Prop :=
  (∀ i ∈ left, i < leftNumColumns) ∧
    ∀ i ∈ right, leftNumColumns ≤ i ∧ i < leftNumColumns + rightNumColumns

/-- What the join task requires of a condition. -/
def Oriented (leftNumColumns rightNumColumns : Nat) (condition : Expr V) : Prop :=
  ∀ operands ∈ equalities condition,
    OperandsOriented leftNumColumns rightNumColumns operands.1.columns operands.2.columns

def equalityNames : List String := ["equal", "equal:any_any", "is_not_distinct_from"]

def conjunctionNames : List String := ["and", "and:bool"]

mutual

/-- The operands of the equalities that a condition is a conjunction of. A list with one option is
an equality as well. -/
def Expression.equalities (P : Parser) : Expression → List (Expression × Expression)
  | .scalarFunction functionReference arguments =>
    match P.functionReferenceToName functionReference with
    | some functionName =>
      if functionName ∈ equalityNames then
        match arguments with
        | [left, right] => [(left, right)]
        | _ => []
      else if functionName ∈ conjunctionNames then Expression.equalitiesOf P arguments
      else []
    | none => []
  | .singularOrList value options =>
    match options with
    | [option] => [(value, option)]
    | _ => []
  | _ => []

@[simp] def Expression.equalitiesOf (P : Parser) : List Expression → List (Expression × Expression)
  | [] => []
  | e :: es => e.equalities P ++ Expression.equalitiesOf P es

end

/-- Every equality of the join condition is written with the left input first. -/
def JoinRel.Oriented (P : Parser) (rel : JoinRel) : Prop :=
  ∀ expression ∈ rel.expression, ∀ operands ∈ expression.equalities P,
    OperandsOriented rel.leftNumColumns rel.rightNumColumns operands.1.columns operands.2.columns

/-! ### The parser keeps the equalities -/

/-- The pairs are parsed to one another. -/
abbrev ParsedPairs (P : Parser) (pairs : List (Expression × Expression))
    (parsed : List (Expr LiteralValue × Expr LiteralValue)) : Prop :=
  List.Forall₂ (fun pair parsed => parseExpression P pair.1 = .ok parsed.1 ∧
    parseExpression P pair.2 = .ok parsed.2) pairs parsed

variable {functionName : String}

section

variable (h : functionName ∈ equalityNames ++ conjunctionNames)
include h

lemma nameToFkindMap_eq_none : nameToFkindMap functionName = none := by
  revert functionName
  decide

lemma parseUnary_eq_error {input e : Expr LiteralValue} :
    parseUnaryFunction functionName input ≠ .ok e := by
  have hnames : ∀ name ∈ equalityNames ++ conjunctionNames,
      name ≠ "not" ∧ name ≠ "is_null" ∧ name ≠ "is_not_null" := by decide
  obtain ⟨h₁, h₂, h₃⟩ := hnames functionName h
  simp [parseUnaryFunction, h₁, h₂, h₃]

end

lemma operators_equality (h : functionName ∈ equalityNames) :
    (binaryOperator functionName = some .equal ∨ binaryOperator functionName = some .nullEquals) ∧
      associativeOperator functionName = none := by
  revert functionName
  decide

lemma operators_conjunction (h : functionName ∈ conjunctionNames) :
    binaryOperator functionName = some .nullLogicalAnd ∧
      associativeOperator functionName = some .nullLogicalAnd := by
  revert functionName
  decide

lemma equalities_binaryOp {op : BinaryOp} {l r : Expr V}
    (hop : binaryOperator functionName = some op ∨ associativeOperator functionName = some op)
    (heq : functionName ∉ equalityNames) (hand : functionName ∉ conjunctionNames) :
    equalities (.binaryOp op l r) = [] := by
  have hop' : op ≠ .equal ∧ op ≠ .nullEquals ∧ op ≠ .logicalAnd ∧ op ≠ .nullLogicalAnd := by
    rcases hop with hop | hop
    · have hall : ∀ f ∈ binaryFunctions, f.1 ∉ equalityNames → f.1 ∉ conjunctionNames →
          f.2 ≠ .equal ∧ f.2 ≠ .nullEquals ∧ f.2 ≠ .logicalAnd ∧ f.2 ≠ .nullLogicalAnd := by
        decide
      obtain ⟨f, hf, rfl⟩ := Option.map_eq_some_iff.1 hop
      have hname : f.1 = functionName := by simpa using List.find?_some hf
      exact hall f (mem_of_find?_eq_some hf) (hname ▸ heq) (hname ▸ hand)
    · unfold associativeOperator at hop
      split_ifs at hop with h
      · exact absurd (by simpa [conjunctionNames] using h) hand
      · obtain rfl := Option.some.inj hop
        decide
  cases op <;> first | rfl | exact absurd rfl hop'.1 | exact absurd rfl hop'.2.1 |
    exact absurd rfl hop'.2.2.1 | exact absurd rfl hop'.2.2.2

/-- What is to be shown of an expression and what it is parsed to. -/
def KeepsEqualities (P : Parser) (e : Expression) : Prop :=
  ∀ parsed, parseExpression P e = .ok parsed → ParsedPairs P (e.equalities P) (equalities parsed)

variable {P : Parser} {outputExpr parsed : Expr LiteralValue}
  {pairs : List (Expression × Expression)}

lemma parsedPairs_furtherArguments (hname : functionName ∈ conjunctionNames) (nargs : Nat)
    {es : List Expression} (hes : ∀ e ∈ es, KeepsEqualities P e)
    (hpairs : ParsedPairs P pairs (equalities outputExpr))
    (h : parseFurtherArguments functionName nargs outputExpr (parseEach P es) = .ok parsed) :
    ParsedPairs P (pairs ++ Expression.equalitiesOf P es) (equalities parsed) := by
  induction es generalizing outputExpr pairs with
  | nil =>
    obtain rfl := ok.inj h
    simpa using hpairs
  | cons e es ih =>
    obtain ⟨he, hes⟩ := forall_mem_cons.1 hes
    rw [parseEach, parseFurtherArguments] at h
    obtain ⟨rhs, hrhs, h⟩ := bind_eq_ok h
    simp only [(operators_conjunction hname).2] at h
    have hpairs' : ParsedPairs P (pairs ++ e.equalities P)
        (equalities (.binaryOp .nullLogicalAnd outputExpr rhs)) :=
      rel_append hpairs (he rhs hrhs)
    simpa using ih hes hpairs' h

variable {results : List (Except ParseError (Expr LiteralValue))}

lemma equalities_furtherArguments (heq : functionName ∉ equalityNames)
    (hand : functionName ∉ conjunctionNames) (nargs : Nat)
    (hnone : results = [] → equalities outputExpr = [])
    (h : parseFurtherArguments functionName nargs outputExpr results = .ok parsed) :
    equalities parsed = [] := by
  induction results generalizing outputExpr with
  | nil =>
    obtain rfl := ok.inj h
    exact hnone rfl
  | cons result results ih =>
    obtain ⟨rhs, -, h⟩ := bind_eq_ok h
    cases hop : associativeOperator functionName with
    | none => simp [hop] at h
    | some op =>
      simp only [hop] at h
      exact ih (fun _ => equalities_binaryOp (.inr hop) heq hand) h

variable {arguments : List Expression} {parsed : Expr LiteralValue}

lemma parsedPairs_equality (hname : functionName ∈ equalityNames)
    (h : parseScalarFunction P functionName (parseEach P arguments) = .ok parsed) :
    ∃ left right, arguments = [left, right] ∧
      ParsedPairs P [(left, right)] (equalities parsed) := by
  have hmem : functionName ∈ equalityNames ++ conjunctionNames := mem_append_left _ hname
  unfold parseScalarFunction at h
  simp only [nameToFkindMap_eq_none hmem] at h
  match arguments, h with
  | [], h => cases h
  | [e], h =>
    obtain ⟨input, -, h⟩ := bind_eq_ok h
    exact absurd h (parseUnary_eq_error hmem)
  | [left, right], h =>
    obtain ⟨l, hl, h⟩ := bind_eq_ok h
    obtain ⟨r, hr, h⟩ := bind_eq_ok h
    refine ⟨left, right, rfl, ?_⟩
    rcases (operators_equality hname).1 with hop | hop <;>
    · simp only [hop] at h
      obtain rfl := ok.inj h
      exact .cons ⟨hl, hr⟩ .nil
  | first :: second :: third :: further, h =>
    obtain ⟨l, -, h⟩ := bind_eq_ok h
    obtain ⟨r, -, h⟩ := bind_eq_ok h
    simp [(operators_equality hname).2] at h

lemma parsedPairs_conjunction (hname : functionName ∈ conjunctionNames)
    (hargs : ∀ e ∈ arguments, KeepsEqualities P e)
    (h : parseScalarFunction P functionName (parseEach P arguments) = .ok parsed) :
    ParsedPairs P (Expression.equalitiesOf P arguments) (equalities parsed) := by
  have hmem : functionName ∈ equalityNames ++ conjunctionNames := mem_append_right _ hname
  unfold parseScalarFunction at h
  simp only [nameToFkindMap_eq_none hmem] at h
  match arguments, hargs, h with
  | [], _, h => cases h
  | [e], _, h =>
    obtain ⟨input, -, h⟩ := bind_eq_ok h
    exact absurd h (parseUnary_eq_error hmem)
  | [left, right], hargs, h =>
    obtain ⟨l, hl, h⟩ := bind_eq_ok h
    obtain ⟨r, hr, h⟩ := bind_eq_ok h
    simp only [(operators_conjunction hname).1] at h
    obtain rfl := ok.inj h
    have hL := hargs left (by simp) l hl
    have hR := hargs right (by simp) r hr
    have happ : ParsedPairs P (left.equalities P ++ right.equalities P)
        (equalities (.binaryOp .nullLogicalAnd l r)) := rel_append hL hR
    simpa using happ
  | first :: second :: third :: further, hargs, h =>
    obtain ⟨hfst, hfurther⟩ := forall_mem_cons.1 hargs
    obtain ⟨l, hl, h⟩ := bind_eq_ok h
    exact parsedPairs_furtherArguments hname _ hfurther (hfst l hl) h

/-- Any other function. -/
lemma equalities_scalarFunction (heq : functionName ∉ equalityNames)
    (hand : functionName ∉ conjunctionNames)
    (h : parseScalarFunction P functionName results = .ok parsed) : equalities parsed = [] := by
  unfold parseScalarFunction at h
  split at h
  · obtain ⟨arguments, -, h⟩ := bind_eq_ok h
    obtain ⟨fn, input, -, rfl⟩ := exists_of_parseFunctionKind h
    rfl
  · split at h
    · cases h
    · obtain ⟨input, -, h⟩ := bind_eq_ok h
      unfold parseUnaryFunction at h
      split_ifs at h <;> (obtain rfl := ok.inj h; rfl)
    · obtain ⟨l, -, h⟩ := bind_eq_ok h
      obtain ⟨r, -, h⟩ := bind_eq_ok h
      cases hop : binaryOperator functionName with
      | none => simp [hop] at h
      | some op =>
        simp only [hop] at h
        obtain rfl := ok.inj h
        exact equalities_binaryOp (.inl hop) heq hand
    · rename_i first further hone _
      obtain ⟨l, -, h⟩ := bind_eq_ok h
      refine equalities_furtherArguments heq hand _ ?_ h
      rintro rfl
      exact (hone rfl).elim

lemma equalities_orEqList {value parsed : Expr LiteralValue}
    {options : List (Expr LiteralValue)} (hlen : 2 ≤ options.length)
    (h : constructOrEqListExpression value options = .ok parsed) : equalities parsed = [] := by
  match options, hlen, h with
  | option :: option' :: options, _, h =>
    rw [constructOrEqListExpression] at h
    · obtain ⟨rest, -, h⟩ := bind_eq_ok h
      obtain rfl := ok.inj h
      rfl
    · simp

lemma parsedPairs_orEqList {value : Expression}
    {value' parsed : Expr LiteralValue} (hvalue : parseExpression P value = .ok value')
    {options : List Expression} {options' : List (Expr LiteralValue)}
    (hopts : (parseEach P options).mapM id = .ok options')
    (h : constructOrEqListExpression value' options'.reverse = .ok parsed) :
    ParsedPairs P ((Expression.singularOrList value options).equalities P) (equalities parsed) := by
  rw [parseEach_eq_map, mapM_eq_ok_iff] at hopts
  match options, options', hopts, h with
  | [], _, .nil, h => cases h
  | [option], _, .cons hoption .nil, h =>
    obtain rfl := ok.inj h
    exact .cons ⟨hvalue, hoption⟩ .nil
  | _ :: _ :: _, options', hopts, h =>
    have hlen := hopts.length_eq
    rw [equalities_orEqList (by simp [← hlen]) h]
    exact .nil

mutual

/-- The equalities of a parsed expression are the parsed equalities of the expression. -/
lemma keepsEqualities (P : Parser) : ∀ e : Expression, KeepsEqualities P e
  | .scalarFunction functionReference arguments, parsed, h => by
    rw [parseExpression] at h
    obtain ⟨functionName, hname, h⟩ := bind_eq_ok h
    have hlook : P.functionReferenceToName functionReference = some functionName := by
      unfold Parser.getFunctionName at hname
      split at hname
      · rw [← ok.inj hname]
        assumption
      · cases hname
    simp only [Expression.equalities, hlook]
    split_ifs with heq hand
    · obtain ⟨left, right, rfl, hpairs⟩ := parsedPairs_equality heq h
      exact hpairs
    · exact parsedPairs_conjunction hand (keepsEqualities_of_mem P arguments) h
    · rw [equalities_scalarFunction heq hand h]
      exact .nil
  | .singularOrList value options, parsed, h => by
    rw [parseExpression] at h
    obtain ⟨value', hvalue, h⟩ := bind_eq_ok h
    obtain ⟨options', hopts, h⟩ := bind_eq_ok h
    exact parsedPairs_orEqList hvalue hopts h
  | .selection reference, parsed, h => by
    obtain ⟨i, rfl⟩ : ∃ i, parsed = .columnReference i := by
      rw [parseExpression] at h
      unfold parseSelectionExpression at h
      split at h
      · cases h
      · cases h
      · split_ifs at h
        exact ⟨_, (ok.inj h).symm⟩
    exact .nil
  | .literal literal, parsed, h => by
    rw [parseExpression] at h
    obtain ⟨value, null, rfl⟩ := exists_of_parseLiteral h
    exact .nil
  | .subquery, _, h => by cases h
  | .ifThen ifs else_, parsed, h => by
    rw [parseExpression] at h
    split_ifs at h with hemp
    obtain ⟨elseExpr, -, h⟩ := bind_eq_ok h
    cases ifs with
    | nil => exact absurd rfl hemp
    | cons clause clauses =>
      rw [parseIfClauses] at h
      obtain ⟨currentElse, -, h⟩ := bind_eq_ok h
      obtain ⟨⟨ifExpr, thenExpr⟩, -, h⟩ := bind_eq_ok h
      obtain rfl := ok.inj h
      exact .nil
  | .cast input type, parsed, h => by
    rw [parseExpression] at h
    obtain ⟨inputExpr, -, h⟩ := bind_eq_ok h
    obtain ⟨outputDataType, -, h⟩ := bind_eq_ok h
    obtain rfl := ok.inj h
    exact .nil
  | .other _, _, h => by cases h

lemma keepsEqualities_of_mem (P : Parser) : ∀ es : List Expression, ∀ e ∈ es, KeepsEqualities P e
  | [] => by simp
  | e :: es => forall_mem_cons.2 ⟨keepsEqualities P e, keepsEqualities_of_mem P es⟩

end

/-! ### Orientation -/

lemma operandsOriented_congr (leftNumColumns rightNumColumns : Nat)
    {left left' right right' : List Nat}
    (hl : ∀ i, i ∈ left ↔ i ∈ left') (hr : ∀ i, i ∈ right ↔ i ∈ right') :
    OperandsOriented leftNumColumns rightNumColumns left right ↔
      OperandsOriented leftNumColumns rightNumColumns left' right' := by
  simp [hl, hr]

lemma oriented_iff_of_parsedPairs {leftNumColumns rightNumColumns : Nat}
    {parsed : List (Expr LiteralValue × Expr LiteralValue)} (h : ParsedPairs P pairs parsed) :
    (∀ operands ∈ parsed, OperandsOriented leftNumColumns rightNumColumns operands.1.columns
        operands.2.columns) ↔
      ∀ operands ∈ pairs, OperandsOriented leftNumColumns rightNumColumns operands.1.columns
        operands.2.columns := by
  induction h with
  | nil => simp
  | cons hpair _ ih =>
    have hfst := operandsOriented_congr leftNumColumns rightNumColumns
      (hasColumns_parse P _ _ hpair.1) (hasColumns_parse P _ _ hpair.2)
    rw [forall_mem_cons, forall_mem_cons, hfst, ih]

lemma parseExpression_of_relation {rel : JoinRel} {join : ParsedJoin}
    (h : parseJoinRelation P rel = .ok join) :
    parseJoinExpression P rel.expression = .ok join.condition := by
  obtain ⟨joinType, -, h⟩ := bind_eq_ok h
  split_ifs at h
  obtain ⟨condition, hcond, h⟩ := bind_eq_ok h
  obtain ⟨joinFilter, -, h⟩ := bind_eq_ok h
  obtain rfl := ok.inj h
  exact hcond

/-- The condition that reaches the join task has the operands of all equalities on the right sides
exactly if the plan has them there: nothing turns an equality around. -/
theorem oriented_condition_iff (P : Parser) (rel : JoinRel) {join : ParsedJoin}
    (h : parseJoinRelation P rel = .ok join) :
    Oriented rel.leftNumColumns rel.rightNumColumns join.condition ↔ rel.Oriented P := by
  have hcondition := parseExpression_of_relation h
  unfold JoinRel.Oriented
  cases hexpression : rel.expression with
  | none =>
    rw [hexpression] at hcondition
    have htrue : join.condition = literalExpression (.bool true) := (ok.inj hcondition).symm
    simp [Oriented, htrue, literalExpression, equalities]
  | some expression =>
    rw [hexpression] at hcondition
    have hpairs := keepsEqualities P expression join.condition hcondition
    simpa [Oriented] using oriented_iff_of_parsedPairs hpairs

/-- An inner join of two tables with one column each, on the equality of two columns. -/
def equijoin (first second : Nat) : JoinRel where
  leftNumColumns := 1
  rightNumColumns := 1
  type := .inner
  expression := some (.scalarFunction 0 [.selection (.structField first false),
    .selection (.structField second false)])
  postJoinFilter := none

def equalityParser : Parser where
  functionReferenceToName _ := some "equal"
  typeToName _ := ""
  convertFixedToFloating value _ := value.truncate 64

/-- The equality with the left column first. -/
theorem oriented_condition_leftFirst :
    Oriented 1 1 (Expr.binaryOp (V := LiteralValue) .equal (.columnReference 0)
      (.columnReference 1)) :=
  (oriented_condition_iff equalityParser (equijoin 0 1) rfl).2 (by
    simp [JoinRel.Oriented, equijoin, Expression.equalities, equalityParser, equalityNames])

/-- The equality with the right column first: the condition is parsed, but the join task finds no
column 1 in its left input. -/
theorem not_oriented_condition_rightFirst :
    ∃ join, parseJoinRelation equalityParser (equijoin 1 0) = .ok join ∧
      ¬Oriented 1 1 join.condition ∧
      (Join.addJoinCondition Cudf.integers (.ofColumn .int64 [some 5]) (.ofColumn .int64 [some 5])
        (join.condition.mapValues fun _ => 0)).map (fun _ => ()) =
          .error (.throws "vector::_M_range_check") := by
  refine ⟨_, rfl, ?_, rfl⟩
  simp [Oriented, equalities]

end Gqe.Substrait
