import Gqe.Join.Tasks

/-!
# Keys of join tasks

The conditions that a join takes, when the keys of two tables can be evaluated, and which rows
match then. Computed keys of the right table are the exception: their types are looked up at the
wrong columns, and a key that is taken for one of another type is cast to it.
-/

namespace Gqe.Join

open Fallible List Expr Except JoinKeys

variable {V : Type}

/-- An expression over the columns of one input, from an offset on. -/
def IsOperand (types : List DataType) (offset : Nat) (e : Expr V) : Prop :=
  ∀ i ∈ e.columns, offset ≤ i ∧ i < offset + types.length

lemma IsOperand.columnReference {types : List DataType} {offset i : Nat} (hle : offset ≤ i)
    (hlt : i < offset + types.length) : IsOperand types offset (.columnReference i : Expr V) :=
  forall_mem_singleton.2 ⟨hle, hlt⟩

/-- If a type is found for a computed expression without the offset, it is the type that the
expression has. -/
def FindsRightType (types : List DataType) (offset : Nat) (e : Expr V) : Prop :=
  (∃ i, e = .columnReference i) ∨ ∀ type, lookUpType types e = .ok type →
    lookUpType types (e.rename (· - offset)) = .ok type

lemma findsRightType_zero (types : List DataType) (e : Expr V) : FindsRightType types 0 e :=
  .inr fun type h => by rwa [rename_sub_zero]

/-- Every equality compares an expression over the left input with one over the right input, and
what is left can be handed to cuDF. -/
structure JoinKeys.IsSupported (leftTypes rightTypes : List DataType) (keys : JoinKeys V) :
    Prop where
  left : ∀ e ∈ keys.leftKeyExprs, IsOperand leftTypes 0 e
  right : ∀ e ∈ keys.rightKeyExprs, IsOperand rightTypes leftTypes.length e
  predicates : ∀ predicate predicates, keys.nonEqualityConditions = predicate :: predicates →
    ∃ ast, parsePredicates leftTypes.length predicate predicates = .ok ast

/-- No computed key of the right input is taken for one of another type. -/
def JoinKeys.FindRightTypes (leftTypes rightTypes : List DataType) (keys : JoinKeys V) : Prop :=
  ∀ e ∈ keys.rightKeyExprs, FindsRightType rightTypes leftTypes.length e

lemma JoinKeys.findRightTypes_of_columns {leftTypes rightTypes : List DataType} {keys : JoinKeys V}
    (h : ∀ e ∈ keys.rightKeyExprs, ∃ i, e = .columnReference i) :
    keys.FindRightTypes leftTypes rightTypes :=
  fun e he => .inl (h e he)

variable [LinearOrder V] {C : Cudf V} {table : Table V} {offset : Nat} {e : Expr V}

section Keys

variable {exprs : List (Expr V)}

def keyOf (C : Cudf V) (types : List DataType) (offset : Nat) (exprs : List (Expr V)) (r : Row V) :
    Row V :=
  exprs.map fun e => (e.rename (· - offset)).eval C (types.getD · .empty) r

/-- A table of keys of the rows of a table. -/
def KeyTable.IsFor (C : Cudf V) (t : Table V) (offset : Nat) (exprs : List (Expr V))
    (keyTable : KeyTable V) : Prop :=
  keyTable.rows = t.rows.map (keyOf C t.types offset exprs)

namespace KeyTable.IsFor

variable {t : Table V} {keyTable : KeyTable V}

lemma length_rows (h : keyTable.IsFor C t offset exprs) : keyTable.rows.length = t.numRows := by
  rw [h, length_map, Table.numRows]

lemma getD_rows (h : keyTable.IsFor C t offset exprs) {i : Nat} (hi : i ∈ List.range t.numRows) :
    keyTable.rows.getD i [] = keyOf C t.types offset exprs (t.rows.getD i []) := by
  have hlt : i < t.rows.length := mem_range.1 hi
  rw [h]
  simp [hlt]

end KeyTable.IsFor

lemma value_of_evaluate {column : DataType × (Row V → Option V)} {r : Row V}
    (hright : FindsRightType table.types offset e) (hr : r ∈ table.rows)
    (h : evaluateExpression C table offset e = .ok column) :
    column.2 r = (e.rename (· - offset)).eval C table.typeOf r := by
  by_cases href : ∃ i, e = .columnReference i
  · obtain ⟨i, rfl⟩ := href
    rw [evaluateExpression] at h
    split_ifs at h
    obtain rfl := ok.inj h
    simp
  · rw [evaluate_computed href, if_neg (ne_nil_of_mem hr)] at h
    exact value_of_expressionEvaluator (hright.resolve_left href) h r

lemma isFor_of_evaluateAll {keys : KeyTable V}
    (hright : ∀ e ∈ exprs, FindsRightType table.types offset e)
    (h : evaluateExpressions C table offset exprs = .ok keys) :
    keys.IsFor C table offset exprs := by
  obtain ⟨columns, hcols, hkeys⟩ := bind_eq_ok h
  obtain rfl := ok.inj hkeys
  refine map_congr_left fun r hr => ?_
  have hvals := mapM_eq_ok_iff.1 hcols
  clear h hkeys hcols
  induction hvals with
  | nil => rfl
  | cons hcol _ ih =>
    rw [forall_mem_cons] at hright
    rw [map_cons, value_of_evaluate hright.1 hr hcol, ih hright.2]
    rfl

/-- Columns of a table can be evaluated. -/
lemma exists_evaluate_columns (h : ∀ e ∈ exprs, ∃ i, e = .columnReference i ∧ offset ≤ i ∧
      i < offset + table.types.length) :
    ∃ keys, evaluateExpressions C table offset exprs = .ok keys := by
  obtain ⟨columns, hcols, -⟩ : ∃ columns, exprs.mapM (evaluateExpression C table offset) =
      .ok columns ∧ Forall₂ (fun _ _ => True) exprs columns := by
    apply exists_mapM_eq_ok
    intro e he
    obtain ⟨i, rfl, hle, hlt⟩ := h e he
    have hlt' : i - offset < table.numColumns := by
      rw [Table.numColumns]
      omega
    exact ⟨_, by rw [evaluateExpression, if_neg (Nat.not_lt.2 hle), if_pos hlt'], trivial⟩
  exact ⟨_, by rw [evaluateExpressions, hcols]; rfl⟩

end Keys

/-! ### Conditions -/

def NullEquality.operator : NullEquality → BinaryOp
  | .equal => .nullEquals
  | .unequal => .equal

variable {keys keys' : JoinKeys V}

namespace JoinKeys

/-- What a parsed condition keeps: a null equality as soon as there is a key, and keys in pairs. -/
structure IsConsistent (keys : JoinKeys V) : Prop where
  compareNulls : keys.compareNulls = none ↔ keys.leftKeyExprs = []
  length : keys.leftKeyExprs.length = keys.rightKeyExprs.length

omit [LinearOrder V] in
lemma isConsistent_empty : ({} : JoinKeys V).IsConsistent := ⟨by simp, rfl⟩

def equalities (keys : JoinKeys V) : List (Expr V) :=
  match keys.compareNulls with
  | none => []
  | some compareNulls =>
    List.zipWith (.binaryOp compareNulls.operator) keys.leftKeyExprs keys.rightKeyExprs

/-- What a condition has been taken apart into. -/
@[simp] def conjuncts (keys : JoinKeys V) : List (Expr V) :=
  keys.equalities ++ keys.nonEqualityConditions

omit [LinearOrder V] in
lemma addKeys_eq_ok {policy : NullEquality} {left right : Expr V}
    (h : keys.addKeys policy left right = .ok keys') (hkeys : keys.IsConsistent) :
    keys'.IsConsistent ∧
      keys'.equalities = keys.equalities ++ [.binaryOp policy.operator left right] ∧
      keys'.nonEqualityConditions = keys.nonEqualityConditions := by
  unfold addKeys updateNullEquality at h
  split_ifs at h with hpol
  obtain rfl := ok.inj h
  refine ⟨⟨by simp, by simp [hkeys.length]⟩, ?_, rfl⟩
  rcases hpol with hnone | hsome
  · have hl : keys.leftKeyExprs = [] := hkeys.compareNulls.1 hnone
    have hr : keys.rightKeyExprs = [] := by
      rw [← length_eq_zero_iff, ← hkeys.length, hl, length_nil]
    have hnone' : keys.compareNulls = none := hnone
    simp [equalities, hnone', hl, hr]
  · have hsome' : keys.compareNulls = some policy := hsome
    simp [equalities, hsome', zipWith_append hkeys.length]

end JoinKeys

variable {condition : Expr V}

omit [LinearOrder V] in
/-- A condition leaves a key or a predicate behind. -/
lemma isConsistent_of_parse (h : parseJoinCondition keys condition = .ok keys')
    (hkeys : keys.IsConsistent) :
    keys'.IsConsistent ∧ keys'.conjuncts ≠ [] := by
  fun_induction parseJoinCondition keys condition generalizing keys' with
  | case1 | case2 =>
    obtain ⟨hkeys', heqs, -⟩ := addKeys_eq_ok h hkeys
    exact ⟨hkeys', by simp [heqs]⟩
  | case3 keys left right ihl ihr | case4 keys left right ihl ihr =>
    obtain ⟨keys₁, h₁, h⟩ := bind_eq_ok h
    exact ihr keys₁ h (ihl h₁ hkeys).1
  | case5 =>
    obtain rfl := ok.inj h
    exact ⟨⟨hkeys.compareNulls, hkeys.length⟩, by simp⟩

omit [LinearOrder V] in
lemma exists_compareNulls {keys : JoinKeys V}
    (h : parseJoinCondition {} condition = .ok keys) (hpreds : keys.nonEqualityConditions = []) :
    ∃ compareNulls, keys.compareNulls = some compareNulls := by
  obtain ⟨-, hconjuncts⟩ := isConsistent_of_parse h isConsistent_empty
  cases hnulls : keys.compareNulls with
  | none => exact absurd (by simp [equalities, *]) hconjuncts
  | some compareNulls => exact ⟨compareNulls, rfl⟩

/-- A condition is TRUE if all its conjuncts are. -/
lemma forall_conjuncts_iff (h : parseJoinCondition keys condition = .ok keys')
    (hkeys : keys.IsConsistent) (τ : Nat → DataType) (r : Row V) :
    (∀ c ∈ keys'.conjuncts, c.IsTrue C τ r) ↔
      (∀ c ∈ keys.conjuncts, c.IsTrue C τ r) ∧ condition.IsTrue C τ r := by
  fun_induction parseJoinCondition keys condition generalizing keys' with
  | case1 | case2 =>
    obtain ⟨-, heqs, hpreds⟩ := addKeys_eq_ok h hkeys
    simp only [conjuncts, heqs, hpreds, forall_mem_append, forall_mem_singleton]
    exact and_right_comm
  | case3 keys left right ihl ihr =>
    obtain ⟨keys₁, h₁, h⟩ := bind_eq_ok h
    rw [ihr keys₁ h (isConsistent_of_parse h₁ hkeys).1, ihl h₁ hkeys, and_assoc,
      isTrue_logicalAnd]
  | case4 keys left right ihl ihr =>
    obtain ⟨keys₁, h₁, h⟩ := bind_eq_ok h
    rw [ihr keys₁ h (isConsistent_of_parse h₁ hkeys).1, ihl h₁ hkeys, and_assoc,
      isTrue_nullLogicalAnd]
  | case5 =>
    obtain rfl := ok.inj h
    simp only [conjuncts, equalities, forall_mem_append,
      forall_mem_singleton, and_assoc]

lemma isTrue_iff_of_parse {keys : JoinKeys V}
    (h : parseJoinCondition {} condition = .ok keys) (τ : Nat → DataType) (r : Row V) :
    condition.IsTrue C τ r ↔ (∀ c ∈ keys.equalities, c.IsTrue C τ r) ∧
      ∀ c ∈ keys.nonEqualityConditions, c.IsTrue C τ r := by
  have hemp : ∀ c ∈ ({} : JoinKeys V).conjuncts, c.IsTrue C τ r :=
    fun c hc => absurd hc not_mem_nil
  rw [← forall_mem_append]
  exact (and_iff_right hemp).symm.trans
    (forall_conjuncts_iff h isConsistent_empty τ r).symm

lemma isTrue_foldl_nullAnd {predicate : Expr V} {predicates : List (Expr V)}
    {τ : Nat → DataType} {r : Row V} :
    (predicates.foldl (.binaryOp .nullLogicalAnd) predicate).IsTrue C τ r ↔
      ∀ c ∈ predicate :: predicates, c.IsTrue C τ r := by
  induction predicates generalizing predicate with
  | nil => simp
  | cons c predicates ih =>
    rw [foldl_cons, ih]
    simp [isTrue_nullLogicalAnd, and_assoc]

/-! ### Keys of matching rows -/

section Matching

variable {leftTypes rightTypes : List DataType} {l r : Row V}

lemma eval_left (hlt : ∀ i ∈ e.columns, i < leftTypes.length) (hl : l.length = leftTypes.length) :
    (e.rename (· - 0)).eval C (leftTypes.getD · .empty) l =
      e.eval C ((leftTypes ++ rightTypes).getD · .empty) (l ++ r) := by
  apply eval_rename
  · intro i hi
    exact (getD_append _ _ _ _ (hlt i hi)).symm
  · intro i hi
    exact (Row.col_append_left (hl ▸ hlt i hi)).symm

lemma eval_right (hle : ∀ i ∈ e.columns, leftTypes.length ≤ i) (hl : l.length = leftTypes.length) :
    (e.rename (· - leftTypes.length)).eval C (rightTypes.getD · .empty) r =
      e.eval C ((leftTypes ++ rightTypes).getD · .empty) (l ++ r) := by
  apply eval_rename
  · intro i hi
    exact (getD_append_right _ _ _ _ (hle i hi)).symm
  · intro i hi
    obtain ⟨k, rfl⟩ := Nat.exists_eq_add_of_le (hle i hi)
    rw [Nat.add_sub_cancel_left, ← hl, Row.col_append_right]

variable {compareNulls : NullEquality}

lemma cellsEqual_iff {e e' : Expr V} {τ : Nat → DataType} :
    cellsEqual compareNulls (e.eval C τ r) (e'.eval C τ r) ↔
      (binaryOp compareNulls.operator e e').IsTrue C τ r := by
  cases compareNulls with
  | equal => simp [cellsEqual, NullEquality.operator, Expr.IsTrue, Cudf.binaryOp]
  | unequal =>
    rw [NullEquality.operator, isTrue_equal]
    simp [cellsEqual, Option.isSome_iff_ne_none, and_comm]

/-- Two keys are equal if the equalities are TRUE on the two rows. -/
lemma keysEqual_iff {lefts rights : List (Expr V)}
    (hlefts : ∀ e ∈ lefts, ∀ i ∈ e.columns, i < leftTypes.length)
    (hrights : ∀ e ∈ rights, ∀ i ∈ e.columns, leftTypes.length ≤ i)
    (hl : l.length = leftTypes.length) : keysEqual compareNulls (keyOf C leftTypes 0 lefts l)
        (keyOf C rightTypes leftTypes.length rights r) ↔
      ∀ c ∈ List.zipWith (binaryOp compareNulls.operator) lefts rights,
        c.IsTrue C ((leftTypes ++ rightTypes).getD · .empty) (l ++ r) := by
  induction lefts generalizing rights with
  | nil => simp [keysEqual, keyOf]
  | cons e lefts ih =>
    cases rights with
    | nil => simp [keysEqual, keyOf]
    | cons e' rights =>
      have ih := ih (fun x hx => hlefts x (mem_cons_of_mem _ hx))
        (fun x hx => hrights x (mem_cons_of_mem _ hx))
      rw [zipWith_cons_cons, forall_mem_cons, ← ih, ← cellsEqual_iff,
        ← eval_left (hlefts e mem_cons_self) hl, ← eval_right (hrights e' mem_cons_self) hl]
      simp [keysEqual, keyOf]

end Matching

/-! ### Evaluated keys -/

section Evaluated

variable {left right : Table V} {condition : Expr V} {keys : JoinKeys V}

/-- The keys of a join task: those of its tables, row by row. -/
structure EvaluatedKeys.IsFor (C : Cudf V) (keys : JoinKeys V) (left right : Table V)
    (evaluated : EvaluatedKeys V) : Prop where
  condition : evaluated.condition = keys
  leftKeys : evaluated.leftKeys.IsFor C left 0 keys.leftKeyExprs
  rightKeys : evaluated.rightKeys.IsFor C right left.types.length keys.rightKeyExprs

/-- The keys of two tables can be evaluated. -/
structure JoinKeys.AreEvaluated (C : Cudf V) (left right : Table V) (keys : JoinKeys V) : Prop where
  leftKeys : ∃ leftKeys, evaluateExpressions C left 0 keys.leftKeyExprs = .ok leftKeys
  rightKeys : ∃ rightKeys,
    evaluateExpressions C right left.types.length keys.rightKeyExprs = .ok rightKeys

lemma addCondition_eq_ok (hpar : parseJoinCondition {} condition = .ok keys)
    (hright : keys.FindRightTypes left.types right.types) (hkeys : keys.AreEvaluated C left right) :
    ∃ evaluated, addJoinCondition C left right condition = .ok evaluated ∧
      evaluated.IsFor C keys left right := by
  obtain ⟨⟨leftKeys, hl⟩, rightKeys, hr⟩ := hkeys
  have hr' : evaluateExpressions C right left.numColumns keys.rightKeyExprs = .ok rightKeys := hr
  refine ⟨⟨keys, leftKeys, rightKeys⟩, ?_, rfl, ?_, isFor_of_evaluateAll hright hr⟩
  · rw [addJoinCondition, hpar]
    simp [hl, hr']
  · exact isFor_of_evaluateAll (fun e _ => findsRightType_zero _ e) hl

lemma areEvaluated_of_addJoinCondition {evaluated : EvaluatedKeys V}
    (hpar : parseJoinCondition {} condition = .ok keys)
    (h : addJoinCondition C left right condition = .ok evaluated) :
    keys.AreEvaluated C left right := by
  obtain ⟨keys', hpar', h⟩ := bind_eq_ok h
  obtain rfl : keys' = keys := ok.inj (hpar'.symm.trans hpar)
  obtain ⟨leftKeys, hl, h⟩ := bind_eq_ok h
  obtain ⟨rightKeys, hr, -⟩ := bind_eq_ok h
  exact ⟨⟨leftKeys, hl⟩, rightKeys, hr⟩

end Evaluated

end Gqe.Join
