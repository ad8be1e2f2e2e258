import Gqe.Lib.ListJoin
import Gqe.Optimizer.Rewriting
import Gqe.Relation

/-!
# Swapping the children of a join

`optimizer/rules/join_children_swap.cpp`: the children of an inner join are exchanged if the other
one is expected to be smaller. The column references of the condition are renumbered, the operands
of its equalities are exchanged, and so are the columns that the join materializes.
-/

namespace Gqe.Optimizer

open List Expr Row Table ListJoin

variable {V : Type*}

/-! ### The rule -/

inductive BroadcastPolicy where
  | right | left
  deriving DecidableEq

/-- `is_valid_join_condition`. Only an equality at the root is looked into. -/
def isValidJoinCondition (nColsLeft : Nat) (isLeft : Bool) : Expr V → Bool
  | .binaryOp .equal l r =>
    isValidJoinCondition nColsLeft true l && isValidJoinCondition nColsLeft false r
  | .columnReference colIdx =>
    if isLeft && nColsLeft ≤ colIdx then false
    else if !isLeft && colIdx < nColsLeft then false
    else true
  | _ => true

/-- A column of the joined rows, once the two sides are exchanged. -/
def swapColumn (nColsLeft nColsRight idx : Nat) : Nat :=
  if idx < nColsLeft then idx + nColsRight else idx - nColsLeft

def colrefModifier (nColsLeft nColsRight : Nat) : Modifier V
  | .columnReference idx => .ok (some (.columnReference (swapColumn nColsLeft nColsRight idx)))
  | _ => .ok none

/-- `eq_expr_children_swap`. What is built is an `equal_expression`, whichever equality it was. -/
def eqExprChildrenSwap : Modifier V
  | .binaryOp op l r =>
    if op = .equal ∨ op = .nullEquals then .ok (some (.binaryOp .equal r l)) else .ok none
  | _ => .ok none

/-- `swap_join_keys_inplace`. -/
def swapJoinKeys (nColsLeft nColsRight : Nat) (condition : Expr V) : Except Failure (Expr V) := do
  if !isValidJoinCondition nColsLeft true condition then
    .error (.runtimeError "join_children_swap: invalid join condition")
  else
    let condition ←
      expressionRewriteDown (colrefModifier nColsLeft nColsRight) condition.height condition
    expressionRewriteUp eqExprChildrenSwap condition.height condition

/-- `swap_projection_indices_inplace`. -/
@[simp] def swapProjectionIndices (projectionIndices : List Nat) (nColsLeft nColsRight : Nat) :
    List Nat :=
  projectionIndices.map (swapColumn nColsLeft nColsRight)

def isBinaryOp : Expr V → Bool
  | .binaryOp _ _ _ => true
  | _ => false

/-- What the rule is applied with: the default policy, the estimated number of rows and the number
of columns of a relation. -/
structure JoinChildrenSwap (V : Type*) where
  defaultBroadcastPolicy : BroadcastPolicy
  estimator : Plan V → Nat
  numColumns : Plan V → Nat

/-- The children are in the wrong order for the policy. -/
def JoinChildrenSwap.swaps (rule : JoinChildrenSwap V) (left right : Plan V) : Bool :=
  match rule.defaultBroadcastPolicy with
  | .left => rule.estimator right < rule.estimator left
  | .right => rule.estimator left < rule.estimator right

/-- `visit(join_relation)`, once the children are visited. -/
def JoinChildrenSwap.visitJoin (rule : JoinChildrenSwap V) (op : RelOp V)
    (children subqueries : List (Plan V)) : Except Failure (Plan V) :=
  match op, children with
  | .join condition .inner projectionIndices, [left, right] =>
    if isBinaryOp condition && rule.swaps left right then do
      let newCondition ← swapJoinKeys (rule.numColumns left) (rule.numColumns right) condition
      let newIndices := swapProjectionIndices projectionIndices (rule.numColumns left)
        (rule.numColumns right)
      .ok (.node (.join newCondition .inner newIndices) [right, left] subqueries)
    else .ok (.node op children subqueries)
  | op, children => .ok (.node op children subqueries)

mutual

/-- `join_children_swap::apply`: the children and subqueries of a relation are visited first. -/
def JoinChildrenSwap.apply (rule : JoinChildrenSwap V) : Plan V → Except Failure (Plan V)
  | .node op children subqueries => do
    let children ← rule.applyList children
    let subqueries ← rule.applyList subqueries
    rule.visitJoin op children subqueries

def JoinChildrenSwap.applyList (rule : JoinChildrenSwap V) :
    List (Plan V) → Except Failure (List (Plan V))
  | [] => .ok []
  | p :: ps => do
    let p ← rule.apply p
    let ps ← rule.applyList ps
    .ok (p :: ps)

end

/-! ### Conditions on keys -/

/-- Conjunctions of equalities and null-safe equalities between column references. -/
inductive IsKeyCondition : Expr V → Prop
  | equal (i j : Nat) : IsKeyCondition (.binaryOp .equal (.columnReference i) (.columnReference j))
  | nullEquals (i j : Nat) :
    IsKeyCondition (.binaryOp .nullEquals (.columnReference i) (.columnReference j))
  | logicalAnd {l r : Expr V} (hl : IsKeyCondition l) (hr : IsKeyCondition r) :
    IsKeyCondition (.binaryOp .logicalAnd l r)
  | nullLogicalAnd {l r : Expr V} (hl : IsKeyCondition l) (hr : IsKeyCondition r) :
    IsKeyCondition (.binaryOp .nullLogicalAnd l r)

/-- The condition with the operands of all equalities exchanged, as plain equalities. -/
def exchangeOperands : Expr V → Expr V
  | .binaryOp .equal l r => .binaryOp .equal r l
  | .binaryOp .nullEquals l r => .binaryOp .equal r l
  | .binaryOp .logicalAnd l r => .binaryOp .logicalAnd (exchangeOperands l) (exchangeOperands r)
  | .binaryOp .nullLogicalAnd l r =>
    .binaryOp .nullLogicalAnd (exchangeOperands l) (exchangeOperands r)
  | e => e

variable {e : Expr V}

lemma IsKeyCondition.rename (h : IsKeyCondition e) (g : Nat → Nat) :
    IsKeyCondition (e.rename g) := by
  induction h with
  | equal i j => exact .equal (g i) (g j)
  | nullEquals i j => exact .nullEquals (g i) (g j)
  | logicalAnd _ _ ihl ihr => exact .logicalAnd ihl ihr
  | nullLogicalAnd _ _ ihl ihr => exact .nullLogicalAnd ihl ihr

lemma onlyReferences_colref (nColsLeft nColsRight : Nat) :
    OnlyReferences (colrefModifier (V := V) nColsLeft nColsRight) := by
  intro e he
  cases e with
  | columnReference i => exact absurd ⟨i, rfl⟩ he
  | _ => exact .inl rfl

lemma rewriteUp_binaryOp {f : Modifier V} {op : BinaryOp} {l r l' r' : Expr V}
    {bound : Nat} (hl : expressionRewriteUp f bound l = .ok l')
    (hr : expressionRewriteUp f bound r = .ok r') :
    expressionRewriteUp f (bound + 1) (.binaryOp op l r) =
      (f (.binaryOp op l' r')).map fun newExpr => newExpr.getD (.binaryOp op l' r') := by
  simp only [expressionRewriteUp, children, mapM_cons, mapM_nil, hl, hr, bind,
    Except.bind, pure, Except.pure, withChildren]
  cases f (.binaryOp op l' r') <;> rfl

lemma rewriteUp_reference (bound i : Nat) :
    expressionRewriteUp (V := V) eqExprChildrenSwap (bound + 1) (.columnReference i) =
      .ok (.columnReference i) := rfl

lemma rewriteUp_eq_exchangeOperands (h : IsKeyCondition e) : ∀ bound, e.height ≤ bound →
      expressionRewriteUp eqExprChildrenSwap bound e = .ok (exchangeOperands e) := by
  induction h with
  | equal i j =>
    rintro (_ | _ | bound) hbound
    · simp at hbound
    · simp at hbound
    · rw [rewriteUp_binaryOp (rewriteUp_reference bound i)
        (rewriteUp_reference bound j)]
      rfl
  | nullEquals i j =>
    rintro (_ | _ | bound) hbound
    · simp at hbound
    · simp [height] at hbound
    · rw [rewriteUp_binaryOp (rewriteUp_reference bound i)
        (rewriteUp_reference bound j)]
      rfl
  | logicalAnd _ _ ihl ihr =>
    rintro (_ | bound) hbound
    · simp at hbound
    · simp only [height, Nat.add_le_add_iff_right, Nat.max_le] at hbound
      rw [rewriteUp_binaryOp (ihl bound hbound.1) (ihr bound hbound.2)]
      rfl
  | nullLogicalAnd _ _ ihl ihr =>
    rintro (_ | bound) hbound
    · simp [height] at hbound
    · simp only [height, Nat.add_le_add_iff_right, Nat.max_le] at hbound
      rw [rewriteUp_binaryOp (ihl bound hbound.1) (ihr bound hbound.2)]
      rfl

def swappedCondition (nColsLeft nColsRight : Nat) (condition : Expr V) : Expr V :=
  exchangeOperands (condition.rename (swapColumn nColsLeft nColsRight))

variable {condition : Expr V}

lemma swapJoinKeys_eq_ok {nColsLeft nColsRight : Nat}
    (hkeys : IsKeyCondition condition) (hvalid : isValidJoinCondition nColsLeft true condition) :
    swapJoinKeys nColsLeft nColsRight condition =
      .ok (swappedCondition nColsLeft nColsRight condition) := by
  have hdown := rewriteDown_eq_rename
    (onlyReferences_colref nColsLeft nColsRight) condition.height condition le_rfl
    fun i _ => rfl
  have hup := rewriteUp_eq_exchangeOperands
    (hkeys.rename (swapColumn nColsLeft nColsRight)) _ le_rfl
  simp [swapJoinKeys, hvalid, hdown, hup, swappedCondition]

/-! ### Joined rows with their sides exchanged -/

variable {left right : Table V} {l r : Row V}

lemma col_swapColumn (hl : l ∈ left.rows) (hr : r ∈ right.rows) {i : Nat}
    (hi : i < left.numColumns + right.numColumns) :
    col (r ++ l) (swapColumn left.numColumns right.numColumns i) = col (l ++ r) i := by
  have hl' : l.length = left.numColumns := left.length_row l hl
  have hr' : r.length = right.numColumns := right.length_row r hr
  by_cases h : i < left.numColumns
  · rw [swapColumn, if_pos h, Nat.add_comm, ← hr', col_append_right, col_append_left (hl' ▸ h)]
  · obtain ⟨k, rfl⟩ := Nat.exists_eq_add_of_le (Nat.le_of_not_lt h)
    have hk : k < r.length := by omega
    rw [swapColumn, if_neg h, Nat.add_sub_cancel_left, col_append_left hk, ← hl', col_append_right]

lemma types_swapColumn {i : Nat} (hi : i < left.numColumns + right.numColumns) :
    joinConditionTypes right left (swapColumn left.numColumns right.numColumns i) =
      joinConditionTypes left right i := by
  simp only [numColumns] at hi
  by_cases h : i < left.types.length
  · rw [joinConditionTypes, joinConditionTypes, swapColumn, numColumns, if_pos h,
      numColumns, getD_append_right _ _ _ _ (Nat.le_add_left ..),
      getD_append _ _ _ _ h, Nat.add_sub_cancel]
  · have hi' : i - left.types.length < right.types.length := by omega
    rw [joinConditionTypes, joinConditionTypes, swapColumn, numColumns, if_neg h,
      getD_append _ _ _ _ hi', getD_append_right _ _ _ _ (Nat.le_of_not_lt h)]

variable {indices : List Nat}

lemma select_swapIndices (hl : l ∈ left.rows) (hr : r ∈ right.rows)
    (hidxs : ∀ i ∈ indices, i < left.numColumns + right.numColumns) :
    select (r ++ l) (swapProjectionIndices indices left.numColumns right.numColumns) =
      select (l ++ r) indices := by
  rw [select, swapProjectionIndices, map_map]
  exact map_congr_left fun i hi => col_swapColumn hl hr (hidxs i hi)

/-! ### Rows on which the conditions are TRUE -/

/-- Some null-safe equality of the condition holds on a row because both of its operands are
NULL. -/
def NullSafeMatch : Expr V → Row V → Prop
  | .binaryOp .nullEquals (.columnReference i) (.columnReference j), row =>
    row.col i = none ∧ row.col j = none
  | .binaryOp .logicalAnd l r, row => NullSafeMatch l row ∨ NullSafeMatch r row
  | .binaryOp .nullLogicalAnd l r, row => NullSafeMatch l row ∨ NullSafeMatch r row
  | _, _ => False

lemma NullSafeMatch.rename_iff (h : IsKeyCondition e) {g : Nat → Nat}
    {row row' : Row V} (hrow : ∀ i ∈ e.columns, row'.col (g i) = row.col i) :
    NullSafeMatch (e.rename g) row' ↔ NullSafeMatch e row := by
  induction h with
  | equal i j => rfl
  | nullEquals i j =>
    simp [NullSafeMatch, hrow i (by simp [columns]), hrow j (by simp)]
  | logicalAnd _ _ ihl ihr | nullLogicalAnd _ _ ihl ihr =>
    simp only [columns, mem_append] at hrow
    simp [NullSafeMatch, ihl fun i hi => hrow i (.inl hi), ihr fun i hi => hrow i (.inr hi)]

variable [LinearOrder V]

variable (C : Cudf V)

lemma isTrue_nullEquals (τ : Nat → DataType) (e₁ e₂ : Expr V) (row : Row V) :
    (binaryOp .nullEquals e₁ e₂).IsTrue C τ row ↔ e₁.eval C τ row = e₂.eval C τ row := by
  simp [Expr.IsTrue, Cudf.binaryOp]

/-- As plain equalities, the null-safe ones lose the rows on which NULL meets NULL. -/
lemma isTrue_exchangeOperands_iff (τ : Nat → DataType) (h : IsKeyCondition e) (row : Row V) :
    (exchangeOperands e).IsTrue C τ row ↔ e.IsTrue C τ row ∧ ¬NullSafeMatch e row := by
  induction h with
  | equal i j =>
    simp only [exchangeOperands, isTrue_equal, NullSafeMatch]
    grind
  | nullEquals i j =>
    simp only [exchangeOperands, isTrue_equal, isTrue_nullEquals, eval, NullSafeMatch]
    grind
  | logicalAnd _ _ ihl ihr =>
    simp only [exchangeOperands, isTrue_logicalAnd, NullSafeMatch]
    tauto
  | nullLogicalAnd _ _ ihl ihr =>
    simp only [exchangeOperands, isTrue_nullLogicalAnd, NullSafeMatch]
    tauto

lemma isTrue_swappedCondition_iff (hkeys : IsKeyCondition condition)
    (hcols : ∀ i ∈ condition.columns, i < left.numColumns + right.numColumns) (hl : l ∈ left.rows)
    (hr : r ∈ right.rows) : (swappedCondition left.numColumns right.numColumns condition).IsTrue C
        (joinConditionTypes right left) (r ++ l) ↔
      condition.IsTrue C (joinConditionTypes left right) (l ++ r) ∧
        ¬NullSafeMatch condition (l ++ r) := by
  have hcol := fun i hi => col_swapColumn hl hr (hcols i hi)
  rw [swappedCondition, isTrue_exchangeOperands_iff C _ (hkeys.rename _),
    NullSafeMatch.rename_iff hkeys hcol, Expr.IsTrue, eval_rename C _ _ _ _ _ condition
      (fun i hi => types_swapColumn (hcols i hi)) hcol]
  rfl

/-! ### The swapped join -/

/-- The pairs of rows on which a join condition is TRUE. -/
def matchingPairs (C : Cudf V) (condition : Expr V) (left right : Table V) : List (Row V × Row V) :=
  ListJoin.inner
    (fun l r => decide (condition.IsTrue C (joinConditionTypes left right) (l ++ r)))
    left.rows right.rows

lemma mem_matchingPairs {C : Cudf V} {p : Row V × Row V} :
    p ∈ matchingPairs C condition left right ↔ p.1 ∈ left.rows ∧ p.2 ∈ right.rows ∧
      condition.IsTrue C (joinConditionTypes left right) (p.1 ++ p.2) := by
  rw [matchingPairs, mem_inner, decide_eq_true_iff]

lemma rows_join_inner (condition : Expr V) (indices : List Nat)
    (left right : Table V) :
    (left.join C condition .inner indices right).rows = if indices = [] then [] else
        (matchingPairs C condition left right).map fun p => select (p.1 ++ p.2) indices := by
  simp [join, materialize, build, joinRows, joinMatches, matchingPairs,
    ListJoin.inner, map_flatMap, Function.comp_def]

section

variable (hkeys : IsKeyCondition condition)
  (hcols : ∀ i ∈ condition.columns, i < left.numColumns + right.numColumns)
include hkeys hcols

open Classical in
/-- The swapped join matches the same pairs, except those where NULL meets NULL. -/
lemma matchingPairs_swapped_perm :
    ((matchingPairs C (swappedCondition left.numColumns right.numColumns condition)
        right left).map Prod.swap).Perm ((matchingPairs C condition left right).filter
        fun p => !decide (NullSafeMatch condition (p.1 ++ p.2))) := by
  rw [matchingPairs, matchingPairs, ← ListJoin.inner_and]
  refine .trans (.of_eq ?_) (ListJoin.inner_swap _ left.rows right.rows)
  congr 1
  apply ListJoin.inner_congr
  intro r hr l hl
  rw [Bool.eq_iff_iff, decide_eq_true_iff, isTrue_swappedCondition_iff C hkeys hcols hl hr]
  simp

lemma join_swapped_perm_iff (hidxs : ∀ i ∈ indices, i < left.numColumns + right.numColumns) :
    (right.join C (swappedCondition left.numColumns right.numColumns condition) .inner
        (swapProjectionIndices indices left.numColumns right.numColumns) left).rows.Perm
      (left.join C condition .inner indices right).rows ↔
    indices = [] ∨ ∀ l ∈ left.rows, ∀ r ∈ right.rows,
      condition.IsTrue C (joinConditionTypes left right) (l ++ r) →
        ¬NullSafeMatch condition (l ++ r) := by
  rw [rows_join_inner, rows_join_inner]
  by_cases hemp : indices = []
  · simp [hemp]
  have hrows : (matchingPairs C (swappedCondition left.numColumns right.numColumns condition)
        right left).map (fun p => select (p.1 ++ p.2)
          (swapProjectionIndices indices left.numColumns right.numColumns)) =
      ((matchingPairs C (swappedCondition left.numColumns right.numColumns condition)
        right left).map Prod.swap).map fun p => select (p.1 ++ p.2) indices := by
    rw [map_map]
    apply map_congr_left
    intro p hp
    obtain ⟨hr, hl, -⟩ := mem_matchingPairs.1 hp
    exact select_swapIndices hl hr hidxs
  have hperm := (matchingPairs_swapped_perm C hkeys hcols).map
    fun p => select (p.1 ++ p.2) indices
  have hemp' : swapProjectionIndices indices left.numColumns right.numColumns ≠ [] := by
    simpa using hemp
  rw [if_neg hemp, if_neg hemp', hrows, hperm.congr_left]
  simp only [hemp, false_or]
  constructor
  · intro h l hl r hr htrue
    -- As many pairs are left as there were, so that none was dropped.
    have hlen := h.length_eq
    simp only [length_map] at hlen
    have hall := length_filter_eq_length_iff.1 hlen (l, r)
      (mem_matchingPairs.2 ⟨hl, hr, htrue⟩)
    simpa using hall
  · intro h
    rw [filter_eq_self.2]
    intro p hp
    obtain ⟨hl, hr, htrue⟩ := mem_matchingPairs.1 hp
    simpa using h p.1 hl p.2 hr htrue

end

lemma types_join_swapped (condition condition' : Expr V)
    (hidxs : ∀ i ∈ indices, i < left.numColumns + right.numColumns) :
    (right.join C condition' .inner
        (swapProjectionIndices indices left.numColumns right.numColumns) left).types =
      (left.join C condition .inner indices right).types := by
  simp only [join, materialize, swapProjectionIndices, map_map]
  exact map_congr_left fun i hi => types_swapColumn (hidxs i hi)

/-- The rule keeps the columns of an inner join, and the multiset of its rows exactly if no two rows
are joined because NULL meets NULL in a null-safe equality. -/
theorem visitJoin_perm_iff (E : Engine V) (rule : JoinChildrenSwap V) (left right : Plan V)
    (subqueries : List (Plan V)) (condition : Expr V) (indices : List Nat)
    (hleft : rule.numColumns left = (left.eval E).numColumns)
    (hright : rule.numColumns right = (right.eval E).numColumns) (hkeys : IsKeyCondition condition)
    (hcolumns : ∀ i ∈ condition.columns, i < rule.numColumns left + rule.numColumns right)
    (hindices : ∀ i ∈ indices, i < rule.numColumns left + rule.numColumns right)
    (hvalid : isValidJoinCondition (rule.numColumns left) true condition)
    (hswaps : rule.swaps left right) :
    ∃ plan, rule.visitJoin (.join condition .inner indices) [left, right] subqueries = .ok plan ∧
      (plan.eval E).types =
        ((Plan.node (.join condition .inner indices) [left, right] subqueries).eval E).types ∧
      ((plan.eval E).rows.Perm
          ((Plan.node (.join condition .inner indices) [left, right] subqueries).eval E).rows ↔
        indices = [] ∨ ∀ l ∈ (left.eval E).rows, ∀ r ∈ (right.eval E).rows,
          condition.IsTrue (E.cudf (subqueries.map (·.eval E)))
            (joinConditionTypes (left.eval E) (right.eval E)) (l ++ r) →
          ¬NullSafeMatch condition (l ++ r)) := by
  have hbinary : isBinaryOp condition := by cases hkeys <;> rfl
  have hvisit : rule.visitJoin (.join condition .inner indices) [left, right] subqueries =
      .ok (.node (.join (swappedCondition (rule.numColumns left) (rule.numColumns right) condition)
        .inner (swapProjectionIndices indices (rule.numColumns left) (rule.numColumns right)))
        [right, left] subqueries) := by
    simp [JoinChildrenSwap.visitJoin, hbinary, hswaps, swapJoinKeys_eq_ok hkeys hvalid]
  refine ⟨_, hvisit, ?_⟩
  rw [hleft, hright] at hcolumns hindices ⊢
  simp only [Plan.eval_node]
  exact ⟨types_join_swapped _ _ _ hindices, join_swapped_perm_iff _ hkeys hcolumns hindices⟩

/-! Two tables with one column of keys each, the right one with more rows. -/

def readKeys (tableName : String) : Plan Int := .node (.read tableName ["k"] [.int32] none) [] []

def keysEngine (left right : List (Option Int)) : Engine Int where
  cudf := fun _ => Cudf.integers
  other
    | .read "left" .., _, _ => .ofColumn .int32 left
    | _, _, _ => .ofColumn .int32 right

def exactRule (E : Engine Int) : JoinChildrenSwap Int where
  defaultBroadcastPolicy := .right
  estimator := fun p => (p.eval E).numRows
  numColumns := fun p => (p.eval E).numColumns

def nullSafeKeys : Expr Int :=
  .binaryOp .nullEquals (.columnReference 0) (.columnReference 1)

theorem visitJoin_perm_keys : ∃ plan, (exactRule (keysEngine [some 1] [some 1, none])).visitJoin
        (.join nullSafeKeys .inner [1, 0]) [readKeys "left", readKeys "right"] [] = .ok plan ∧
      (plan.eval (keysEngine [some 1] [some 1, none])).rows.Perm [[some 1, some 1]] := by
  obtain ⟨plan, hvisit, -, hperm⟩ := visitJoin_perm_iff (keysEngine [some 1] [some 1, none])
    (exactRule (keysEngine [some 1] [some 1, none])) (readKeys "left") (readKeys "right") []
    nullSafeKeys [1, 0] rfl rfl (.nullEquals 0 1) (by decide) (by decide) rfl (by decide)
  refine ⟨plan, hvisit, hperm.2 (.inr ?_)⟩
  rintro l hl r - - ⟨hnull, -⟩
  obtain rfl : l = [some 1] := mem_singleton.1 hl
  simp [col] at hnull

theorem visitJoin_not_perm_null : ∃ plan, (exactRule (keysEngine [none] [none, some 1])).visitJoin
        (.join nullSafeKeys .inner [0, 1]) [readKeys "left", readKeys "right"] [] = .ok plan ∧
      (plan.eval (keysEngine [none] [none, some 1])).rows = [] ∧
      ((Plan.node (.join nullSafeKeys .inner [0, 1]) [readKeys "left", readKeys "right"] []).eval
        (keysEngine [none] [none, some 1])).rows = [[none, none]] := by
  refine ⟨.node (.join (.binaryOp .equal (.columnReference 0) (.columnReference 1)) .inner [1, 0])
    [readKeys "right", readKeys "left"] [], rfl, ?_, ?_⟩
  · decide
  · decide

/-! ### Whole plans -/

section WholePlans

/-- The order of the rows of its inputs makes no difference to a relation with so many children. -/
def IgnoresOrder (E : Engine V) (op : RelOp V) (numChildren : Nat) : Prop :=
  ∀ ⦃children children' subqueries subqueries'⦄, children.length = numChildren →
    Forall₂ SameResult children children' → Forall₂ SameResult subqueries subqueries' →
    SameResult (E.evalOp op children subqueries) (E.evalOp op children' subqueries')

/-- The condition and the columns of a join fit its inputs, and no two rows are joined because NULL
meets NULL. -/
structure KeysFit (C : Cudf V) (condition : Expr V) (indices : List Nat) (left right : Table V) :
    Prop where
  keys : IsKeyCondition condition
  valid : isValidJoinCondition left.numColumns true condition
  columns : ∀ i ∈ condition.columns, i < left.numColumns + right.numColumns
  indices : ∀ i ∈ indices, i < left.numColumns + right.numColumns
  nullSafe : ∀ l ∈ left.rows, ∀ r ∈ right.rows,
    condition.IsTrue C (joinConditionTypes left right) (l ++ r) → ¬NullSafeMatch condition (l ++ r)

/-- A plan of relations to which the order of rows makes no difference, all of whose inner joins
with an operator as their condition have keys that fit. -/
inductive IsSwappable (E : Engine V) : Plan V → Prop
  | node {op children subqueries} : (∀ p ∈ children, IsSwappable E p) →
    (∀ p ∈ subqueries, IsSwappable E p) → IgnoresOrder E op children.length →
    (∀ condition indices left right, op = .join condition .inner indices →
      children = [left, right] → isBinaryOp condition →
      KeysFit (E.cudf (subqueries.map (·.eval E))) condition indices (left.eval E)
        (right.eval E)) →
    IsSwappable E (.node op children subqueries)

variable {C} {E : Engine V}

lemma IsKeyCondition.isTrue_congr (h : IsKeyCondition e) (C' : Cudf V) (τ : Nat → DataType)
    (row : Row V) : e.IsTrue C τ row ↔ e.IsTrue C' τ row := by
  induction h with
  | equal i j => simp only [isTrue_equal, eval]
  | nullEquals i j => simp only [isTrue_nullEquals, eval]
  | logicalAnd _ _ ihl ihr => simp only [isTrue_logicalAnd, ihl, ihr]
  | nullLogicalAnd _ _ ihl ihr => simp only [isTrue_nullLogicalAnd, ihl, ihr]

section Relations

variable (hcudf : ∀ {subqueries subqueries'}, Forall₂ SameResult subqueries subqueries' →
  E.cudf subqueries = E.cudf subqueries')
include hcudf

lemma ignoresOrder_filter (condition : Expr V) (indices : List Nat) :
    IgnoresOrder E (.filter condition indices) 1 := by
  intro children children' subqueries subqueries' hlen h hsubqueries
  obtain ⟨t, rfl⟩ := length_eq_one_iff.1 hlen
  obtain ⟨t', _, ht, hnil, rfl⟩ := forall₂_cons_left_iff.1 h
  obtain rfl := forall₂_nil_left_iff.1 hnil
  have htypes : t.typeOf = t'.typeOf := by
    funext i
    rw [typeOf, typeOf, ht.types]
  simp only [Engine.evalOp, Table.filter, hcudf hsubqueries, htypes]
  exact sameResult_materialize _ (ht.rows.filter _) indices

lemma ignoresOrder_join (condition : Expr V) (indices : List Nat) :
    IgnoresOrder E (.join condition .inner indices) 2 := by
  intro children children' subqueries subqueries' hlen h hsubqueries
  obtain ⟨l, r, rfl⟩ := length_eq_two.1 hlen
  obtain ⟨l', _, hl, hrest, rfl⟩ := forall₂_cons_left_iff.1 h
  obtain ⟨r', _, hr, hnil, rfl⟩ := forall₂_cons_left_iff.1 hrest
  obtain rfl := forall₂_nil_left_iff.1 hnil
  simp only [Engine.evalOp, hcudf hsubqueries]
  constructor
  · simp [join, materialize, joinTypes, hl.types, hr.types]
  · rw [rows_join_inner, rows_join_inner]
    split_ifs
    · exact .refl _
    · rw [matchingPairs, matchingPairs, hl.joinConditionTypes_eq hr]
      exact (inner_perm _ hl.rows hr.rows).map _

end Relations

lemma KeysFit.congr {C' : Cudf V} {left' right' : Table V}
    (h : KeysFit C condition indices left right) (hleft : SameResult left' left)
    (hright : SameResult right' right) : KeysFit C' condition indices left' right' where
  keys := h.keys
  valid := hleft.numColumns_eq ▸ h.valid
  columns := hleft.numColumns_eq ▸ hright.numColumns_eq ▸ h.columns
  indices := hleft.numColumns_eq ▸ hright.numColumns_eq ▸ h.indices
  nullSafe l hl r hr htrue := by
    rw [hleft.joinConditionTypes_eq hright, h.keys.isTrue_congr C] at htrue
    exact h.nullSafe l (hleft.rows.mem_iff.1 hl) r (hright.rows.mem_iff.1 hr) htrue

variable {rule : JoinChildrenSwap V} {op : RelOp V} {children subqueries : List (Plan V)}

/-- The step of the rule at one relation. -/
lemma visitJoin_sameResult (hnum : ∀ p, rule.numColumns p = (p.eval E).numColumns)
    (hfit : ∀ condition indices left right, op = .join condition .inner indices →
      children = [left, right] → isBinaryOp condition →
      KeysFit (E.cudf (subqueries.map (·.eval E))) condition indices (left.eval E)
        (right.eval E)) :
    ∃ plan, rule.visitJoin op children subqueries = .ok plan ∧
      SameResult (plan.eval E) ((Plan.node op children subqueries).eval E) := by
  unfold JoinChildrenSwap.visitJoin
  split
  next condition indices left right =>
    split_ifs with hswaps
    · have h := hfit condition indices left right rfl rfl (Bool.and_eq_true_iff.1 hswaps).1
      rw [hnum left, hnum right, swapJoinKeys_eq_ok h.keys h.valid]
      refine ⟨_, rfl, ?_⟩
      simp only [Plan.eval_node]
      exact ⟨types_join_swapped _ _ _ h.indices,
        (join_swapped_perm_iff _ h.keys h.columns h.indices).2 (.inr h.nullSafe)⟩
    · exact ⟨_, rfl, rfl, .refl _⟩
  next => exact ⟨_, rfl, rfl, .refl _⟩

omit [LinearOrder V] in
lemma applyList_eq_mapM (rule : JoinChildrenSwap V) (ps : List (Plan V)) :
    rule.applyList ps = ps.mapM rule.apply := by
  induction ps with
  | nil => rfl
  | cons p ps ih => rw [JoinChildrenSwap.applyList, ih, mapM_cons]; rfl

/-- The rule keeps the columns and the rows of a plan. -/
theorem apply_sameResult (hnum : ∀ p, rule.numColumns p = (p.eval E).numColumns) {plan : Plan V}
    (h : IsSwappable E plan) :
    ∃ plan', rule.apply plan = .ok plan' ∧ SameResult (plan'.eval E) (plan.eval E) := by
  induction h with
  | @node op children subqueries _ _ hignores hfit ihchildren ihsubqueries =>
    obtain ⟨children', hchildren, hsame⟩ := Fallible.exists_mapM_eq_ok ihchildren
    obtain ⟨subqueries', hsubqueries, hsame'⟩ := Fallible.exists_mapM_eq_ok ihsubqueries
    obtain ⟨plan', hvisit, hplan⟩ : ∃ plan', rule.visitJoin op children' subqueries' = .ok plan' ∧
        SameResult (plan'.eval E) ((Plan.node op children' subqueries').eval E) := by
      refine visitJoin_sameResult hnum ?_
      rintro condition indices left right hop rfl hbinary
      obtain ⟨left₀, _, hleft, hrest, rfl⟩ := forall₂_cons_right_iff.1 hsame
      obtain ⟨right₀, _, hright, hnil, rfl⟩ := forall₂_cons_right_iff.1 hrest
      obtain rfl := forall₂_nil_right_iff.1 hnil
      exact (hfit condition indices left₀ right₀ hop rfl hbinary).congr hleft hright
    refine ⟨plan', ?_, hplan.trans ?_⟩
    · rw [JoinChildrenSwap.apply, applyList_eq_mapM, applyList_eq_mapM, hchildren, hsubqueries]
      exact hvisit
    · simp only [Plan.eval_node]
      exact hignores (by simpa using hsame.length_eq.symm) (by simpa using hsame.flip)
        (by simpa using hsame'.flip)

end WholePlans

/-! ### Rejected joins -/

/-- `visit(join_relation)` on the relation itself: what it is left as, and how the visit ends. The
children are replaced before the condition is checked. -/
def JoinChildrenSwap.visitInPlace (rule : JoinChildrenSwap V) (op : RelOp V)
    (children subqueries : List (Plan V)) : Plan V × Except Failure Unit :=
  match op, children with
  | .join condition .inner projectionIndices, [left, right] =>
    if isBinaryOp condition && rule.swaps left right then
      match swapJoinKeys (rule.numColumns left) (rule.numColumns right) condition with
      | .error failure => (.node op [right, left] subqueries, .error failure)
      | .ok newCondition =>
        let newIndices := swapProjectionIndices projectionIndices (rule.numColumns left)
          (rule.numColumns right)
        (.node (.join newCondition .inner newIndices) [right, left] subqueries, .ok ())
    else (.node op children subqueries, .ok ())
  | op, children => (.node op children subqueries, .ok ())

omit [LinearOrder V] in
lemma visitJoin_eq_visitInPlace (rule : JoinChildrenSwap V) (op : RelOp V)
    (children subqueries : List (Plan V)) : rule.visitJoin op children subqueries =
      (rule.visitInPlace op children subqueries).2.map
        fun _ => (rule.visitInPlace op children subqueries).1 := by
  unfold JoinChildrenSwap.visitJoin JoinChildrenSwap.visitInPlace
  split
  · split_ifs
    · cases swapJoinKeys _ _ _ <;> rfl
    · rfl
  · rfl

omit [LinearOrder V] in
lemma ne_of_swaps {rule : JoinChildrenSwap V} {left right : Plan V} (h : rule.swaps left right) :
    left ≠ right := by
  rintro rfl
  unfold JoinChildrenSwap.swaps at h
  split at h <;> simp at h

omit [LinearOrder V] in
/-- A join that is rejected keeps its condition and its columns, and is left with its children
exchanged. -/
theorem visitInPlace_of_error (rule : JoinChildrenSwap V) {condition : Expr V} {joinType : JoinType}
    {indices : List Nat} {left right : Plan V} {subqueries : List (Plan V)} {failure : Failure}
    (h : (rule.visitInPlace (.join condition joinType indices) [left, right] subqueries).2 =
      .error failure) :
    (rule.visitInPlace (.join condition joinType indices) [left, right] subqueries).1 =
      .node (.join condition joinType indices) [right, left] subqueries ∧ left ≠ right := by
  cases joinType with
  | inner =>
    by_cases hswaps : isBinaryOp condition && rule.swaps left right
    · refine ⟨?_, ne_of_swaps (Bool.and_eq_true_iff.1 hswaps).2⟩
      simp only [JoinChildrenSwap.visitInPlace, if_pos hswaps] at h ⊢
      cases hkeys : swapJoinKeys (rule.numColumns left) (rule.numColumns right) condition with
      | error failure => rfl
      | ok newCondition =>
        rw [hkeys] at h
        cases h
    · simp only [JoinChildrenSwap.visitInPlace, if_neg hswaps] at h
      cases h
  | _ => cases h

/-- A visit of a join whose left key is a column of the right table. -/
def visitCrossedKeys : Plan Int × Except Failure Unit :=
  (exactRule (keysEngine [some 1] [some 1, none])).visitInPlace
    (.join (.binaryOp .equal (.columnReference 1) (.columnReference 0)) .inner [0, 1])
    [readKeys "left", readKeys "right"] []

theorem visitInPlace_crossedKeys : visitCrossedKeys.1 =
      .node (.join (.binaryOp .equal (.columnReference 1) (.columnReference 0)) .inner [0, 1])
        [readKeys "right", readKeys "left"] [] ∧ readKeys "left" ≠ readKeys "right" :=
  visitInPlace_of_error _ rfl

theorem visitCrossedKeys_not_intact :
    visitCrossedKeys.2 = .error (.runtimeError "join_children_swap: invalid join condition") ∧
    visitCrossedKeys.1 ≠
      .node (.join (.binaryOp .equal (.columnReference 1) (.columnReference 0)) .inner [0, 1])
        [readKeys "left", readKeys "right"] [] := by
  refine ⟨rfl, fun h => ?_⟩
  have hchildren : [readKeys "right", readKeys "left"] = [readKeys "left", readKeys "right"] :=
    (Plan.node.inj h).2.1
  simp [readKeys] at hchildren

end Gqe.Optimizer
