import Gqe.Substrait.Expressions

/-!
# Columns of Substrait expressions

The parser neither adds nor drops a reference to a column.
-/

namespace Gqe.Substrait

open Fallible List

mutual

@[simp] def Expression.columns : Expression → List Nat
  | .selection (.structField field _) => [field]
  | .selection _ => []
  | .scalarFunction _ arguments => Expression.columnsOf arguments
  | .literal _ => []
  | .subquery => []
  | .ifThen ifs else_ => IfClause.columnsOf ifs ++ else_.columns
  | .singularOrList value options => value.columns ++ Expression.columnsOf options
  | .cast input _ => input.columns
  | .other _ => []

@[simp] def Expression.columnsOf : List Expression → List Nat
  | [] => []
  | e :: es => e.columns ++ Expression.columnsOf es

@[simp] def IfClause.columnsOf : List IfClause → List Nat
  | [] => []
  | clause :: clauses => clause.columns ++ IfClause.columnsOf clauses

@[simp] def IfClause.columns : IfClause → List Nat
  | .mk if_ then_ => if_.columns ++ then_.columns

end

/-- Whatever `result` leads to refers to the given columns. -/
def HasColumns (result : Except ParseError (Expr LiteralValue)) (columns : List Nat) : Prop :=
  ∀ e, result = .ok e → ∀ i, i ∈ e.columns ↔ i ∈ columns

lemma hasColumns_error (error : ParseError) (columns : List Nat) :
    HasColumns (.error error) columns :=
  fun _ h => nomatch h

variable {e : Expr LiteralValue}

lemma hasColumns_ok {columns : List Nat}
    (h : ∀ i, i ∈ e.columns ↔ i ∈ columns) : HasColumns (.ok e) columns := by
  rintro _ ⟨⟩
  exact h

lemma HasColumns.bind {α : Type} {x : Except ParseError α}
    {f : α → Except ParseError (Expr LiteralValue)} {columns : List Nat}
    (h : ∀ a, x = .ok a → HasColumns (f a) columns) : HasColumns (x >>= f) columns := by
  intro e he
  obtain ⟨a, ha, hf⟩ := bind_eq_ok he
  exact h a ha e hf

/-! ### Functions -/

lemma columns_of_stringValue {P : Parser} {value : String}
    (h : tryGetStringValue P e = .ok value) : e.columns = [] := by
  unfold tryGetStringValue at h
  split at h
  · rfl
  · cases h

lemma columns_of_int64Value {P : Parser} {value : BitVec 64}
    (h : tryGetInt64Value P e = .ok value) : e.columns = [] := by
  unfold tryGetInt64Value at h
  split at h
  · rfl
  · split_ifs at h
  · cases h

/-- All arguments but the first one, or the second one of a date part, are literals. -/
lemma hasColumns_functionKind (P : Parser) (functionName : String) (fnKind : FunctionKind)
    (arguments : List (Expr LiteralValue)) :
    HasColumns (parseFunctionKind P functionName fnKind arguments)
      (Expr.columnsList arguments) := by
  unfold parseFunctionKind
  split
  · refine .bind fun _ hcomponent => .bind fun _ _ => hasColumns_ok fun i => ?_
    simp [columns_of_stringValue hcomponent]
  · exact hasColumns_error _ _
  · rename_i input pattern escape
    split_ifs with hlen
    · exact hasColumns_error _ _
    · refine .bind fun _ hpat => .bind fun _ hesc => hasColumns_ok fun i => ?_
      have hnone : Expr.columnsList escape = [] := by
        match escape, hlen, hesc with
        | [], _, _ => rfl
        | [e], _, hesc =>
          simp [columns_of_stringValue hesc]
        | _ :: _ :: _, hlen, _ => simp at hlen
      simp [columns_of_stringValue hpat, hnone]
  · exact hasColumns_error _ _
  · refine .bind fun _ hplaces => hasColumns_ok fun i => ?_
    simp [columns_of_int64Value hplaces]
  · exact hasColumns_error _ _
  · refine .bind fun _ hstart => .bind fun _ hlen => hasColumns_ok fun i => ?_
    simp [columns_of_int64Value hstart, columns_of_int64Value hlen]
  · exact hasColumns_error _ _

lemma hasColumns_unaryFunction (functionName : String) (input : Expr LiteralValue) :
    HasColumns (parseUnaryFunction functionName input) input.columns := by
  unfold parseUnaryFunction
  split_ifs
  · exact hasColumns_ok fun _ => .rfl
  · exact hasColumns_ok fun _ => .rfl
  · exact hasColumns_ok fun _ => .rfl
  · exact hasColumns_error _ _

/-- Each of some results leads to an expression with the columns of an expression. -/
abbrev EachHasColumns (results : List (Except ParseError (Expr LiteralValue)))
    (es : List Expression) : Prop :=
  List.Forall₂ (fun result e => HasColumns result e.columns) results es

variable {results : List (Except ParseError (Expr LiteralValue))} {es : List Expression}

lemma hasColumns_furtherArguments (functionName : String) (nargs : Nat)
    (h : EachHasColumns results es) (outputExpr : Expr LiteralValue) :
    HasColumns (parseFurtherArguments functionName nargs outputExpr results)
      (outputExpr.columns ++ Expression.columnsOf es) := by
  induction h generalizing outputExpr with
  | nil => exact hasColumns_ok fun i => by simp
  | cons hres _ ih =>
    refine .bind fun rhs hrhs => ?_
    cases associativeOperator functionName with
    | none => exact hasColumns_error _ _
    | some op =>
      intro e he i
      rw [ih (.binaryOp op outputExpr rhs) e he i]
      simp [hres rhs hrhs i]

lemma mem_columnsList_iff (h : EachHasColumns results es) {parsed : List (Expr LiteralValue)}
    (hparsed : results.mapM id = .ok parsed) (i : Nat) :
    i ∈ Expr.columnsList parsed ↔ i ∈ Expression.columnsOf es := by
  have hress := mapM_eq_ok_iff.1 hparsed
  clear hparsed
  induction h generalizing parsed with
  | nil =>
    cases hress
    simp
  | cons hres _ ih =>
    cases hress with
    | cons hok hress =>
      simp [hres _ hok i, ih hress]

lemma hasColumns_scalarFunction (P : Parser) (functionName : String)
    (h : EachHasColumns results es) :
    HasColumns (parseScalarFunction P functionName results) (Expression.columnsOf es) := by
  unfold parseScalarFunction
  split
  · refine .bind fun parsed hparsed e he i => ?_
    rw [hasColumns_functionKind P functionName _ parsed e he i,
      mem_columnsList_iff h hparsed i]
  · split
    · exact hasColumns_error _ _
    · obtain ⟨a, _, ha, hrest, rfl⟩ := forall₂_cons_left_iff.1 h
      obtain rfl := forall₂_nil_left_iff.1 hrest
      refine .bind fun input hin e he i => ?_
      rw [hasColumns_unaryFunction functionName input e he i, ha input hin i]
      simp
    · obtain ⟨a, _, ha, hrest, rfl⟩ := forall₂_cons_left_iff.1 h
      obtain ⟨b, _, hb, hnil, rfl⟩ := forall₂_cons_left_iff.1 hrest
      obtain rfl := forall₂_nil_left_iff.1 hnil
      refine .bind fun lhs hlhs => .bind fun rhs hrhs => ?_
      cases binaryOperator functionName with
      | none => exact hasColumns_error _ _
      | some op =>
        refine hasColumns_ok fun i => ?_
        simp [ha lhs hlhs i, hb rhs hrhs i]
    · obtain ⟨a, _, ha, hrest, rfl⟩ := forall₂_cons_left_iff.1 h
      refine .bind fun first hfst e he i => ?_
      rw [hasColumns_furtherArguments functionName _ hrest first e he i]
      simp [ha first hfst i]

/-! ### Expressions -/

lemma hasColumns_orEqList (value : Expr LiteralValue) :
    ∀ options : List (Expr LiteralValue), HasColumns (constructOrEqListExpression value options)
        (value.columns ++ Expr.columnsList options)
  | [] => hasColumns_error _ _
  | [option] => hasColumns_ok fun i => by simp
  | option :: option' :: options => by
    refine .bind fun rest hrest => hasColumns_ok fun i => ?_
    have hrest' := hasColumns_orEqList value (option' :: options) rest hrest i
    simp only [Expr.columns, Expr.columnsList, mem_append] at hrest' ⊢
    rw [hrest']
    tauto

lemma mem_columnsList_reverse (es : List (Expr LiteralValue)) (i : Nat) :
    i ∈ Expr.columnsList es.reverse ↔ i ∈ Expr.columnsList es := by
  have hmem : ∀ es : List (Expr LiteralValue),
      i ∈ Expr.columnsList es ↔ ∃ e ∈ es, i ∈ e.columns := by
    intro es
    induction es with
    | nil => simp
    | cons e es ih => simp [ih]
  simp [hmem]

mutual

/-- The parser keeps the columns of an expression. -/
theorem hasColumns_parse (P : Parser) : ∀ e : Expression,
    HasColumns (parseExpression P e) e.columns
  | .selection .indirect => hasColumns_error _ _
  | .selection .otherSegment => hasColumns_error _ _
  | .selection (.structField field hasChild) => by
    rw [parseExpression, parseSelectionExpression]
    split_ifs
    · exact hasColumns_error _ _
    · exact hasColumns_ok fun _ => .rfl
  | .scalarFunction functionReference arguments => by
    rw [parseExpression]
    exact .bind fun functionName _ => hasColumns_scalarFunction P functionName
      (hasColumns_parseEach P arguments)
  | .literal literal => by
    intro e he i
    rw [parseExpression] at he
    obtain ⟨value, null, rfl⟩ := exists_of_parseLiteral he
    simp [literalExpression]
  | .subquery => hasColumns_error _ _
  | .ifThen ifs else_ => by
    rw [parseExpression]
    split_ifs
    · exact hasColumns_error _ _
    · refine .bind fun elseExpr helse e he i => ?_
      rw [hasColumns_parseIfClauses P elseExpr ifs e he i]
      simp [hasColumns_parse P else_ elseExpr helse i]
  | .singularOrList value options => by
    rw [parseExpression]
    refine .bind fun value' hvalue => .bind fun options' hopts e he i => ?_
    rw [hasColumns_orEqList value' _ e he i]
    simp [hasColumns_parse P value value' hvalue i, mem_columnsList_reverse,
      mem_columnsList_iff (hasColumns_parseEach P options) hopts i]
  | .cast input type => by
    rw [parseExpression]
    refine .bind fun inputExpr hin => .bind fun outputDataType _ => hasColumns_ok fun i => ?_
    simp [hasColumns_parse P input inputExpr hin i]
  | .other _ => hasColumns_error _ _

lemma hasColumns_parseEach (P : Parser) : ∀ es : List Expression, EachHasColumns (parseEach P es) es
  | [] => .nil
  | e :: es => by
    rw [parseEach]
    exact .cons (hasColumns_parse P e) (hasColumns_parseEach P es)

lemma hasColumns_parseIfClauses (P : Parser) (elseExpr : Expr LiteralValue) :
    ∀ clauses : List IfClause, HasColumns (parseIfClauses P elseExpr clauses)
        (IfClause.columnsOf clauses ++ elseExpr.columns)
  | [] => hasColumns_ok fun i => by simp
  | clause :: clauses => by
    rw [parseIfClauses]
    refine .bind fun currentElse hcur => .bind fun parsed hparsed => hasColumns_ok fun i => ?_
    have hclause := hasColumns_parseIfClause P clause parsed hparsed i
    have hclauses := hasColumns_parseIfClauses P elseExpr clauses currentElse hcur i
    simp only [Expr.columns, IfClause.columnsOf, mem_append] at hclause hclauses ⊢
    rw [hclauses, hclause, or_assoc]

lemma hasColumns_parseIfClause (P : Parser) : ∀ (clause : IfClause)
    (parsed : Expr LiteralValue × Expr LiteralValue), parseIfClause P clause = .ok parsed →
      ∀ i, i ∈ parsed.1.columns ++ parsed.2.columns ↔ i ∈ clause.columns
  | .mk if_ then_, parsed, h, i => by
    rw [parseIfClause] at h
    obtain ⟨ifExpr, hif, h⟩ := bind_eq_ok h
    obtain ⟨thenExpr, hthen, h⟩ := bind_eq_ok h
    obtain rfl := Except.ok.inj h
    simp [hasColumns_parse P if_ ifExpr hif i,
      hasColumns_parse P then_ thenExpr hthen i]

end

end Gqe.Substrait
