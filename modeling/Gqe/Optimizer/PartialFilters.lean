import Gqe.NodeManager.Statements
import Gqe.Optimizer.Rewriting
import Gqe.Relation

/-!
# Partial filters of reads

`optimizer/rules/fix_partial_filter_column_references.cpp`: the condition of a filter on a read
becomes the partial filter of the read. The condition refers to the columns that are read, the
partial filter to those of the base table, so the references are renumbered by name. An `IN`
predicate refers to a subquery of its relation, and this reference is copied as it is.
-/

namespace Gqe.Optimizer

open List Function

open NodeManager (Catalog TableInfo)

variable {V : Type*}

/-! ### The rule -/

def columnNames (catalog : Catalog) (tableName : String) : Except Failure (List String) :=
  match catalog tableName with
  | none => .error (.logicError ("cannot find table \"" ++ tableName ++ "\" in the catalog"))
  | some info => .ok info.columnNames

/-- `column_reference_modifier`. What is not a column reference is copied. -/
def columnReferenceModifier (baseTableColumns projectedColumns : List String) : Modifier V
  | .columnReference columnIdx =>
    match projectedColumns[columnIdx]? with
    | none => .error .outOfBounds
    | some column =>
      match baseTableColumns.findIdx? (· = column) with
      | none => .error (.logicError ("Did not find column in base table schema: " ++ column))
      | some position => .ok (some (.columnReference position))
  | expression => .ok (some expression)

/-- `replace_column_references`, applied to the condition of the filter. -/
def replaceColumnReferences (baseTableColumns projectedColumns : List String)
    (filterCondition : Expr V) : Except Failure (Expr V) :=
  expressionRewriteDown (columnReferenceModifier baseTableColumns projectedColumns)
    filterCondition.height filterCondition

/-- `set_expression`: a relation has an expression to be replaced, or not. -/
def setExpression (expression : Option (Expr V)) (newExpression : Expr V) : Option (Expr V) :=
  expression.map fun _ => newExpression

/-- What `visit(filter_relation)` makes of the partial filter of the read below the filter. -/
def updatePartialFilter (catalog : Catalog) (tableName : String) (columns : List String)
    (condition : Expr V) (partialFilter : Option (Expr V)) : Except Failure (Option (Expr V)) :=
  match columnNames catalog tableName with
  | .error failure => .error failure
  | .ok baseTableColumns => do
    let updatedFilterCondition ← replaceColumnReferences baseTableColumns columns condition
    .ok (setExpression partialFilter updatedFilterCondition)

/-- `visit(filter_relation)`, before the children are visited. The condition of the filter is
rewritten in its place, copied to the read, and then set to what it was. -/
def visitFilter (catalog : Catalog) : Plan V → Except Failure (Plan V)
  | .node (.filter condition projectionIndices)
      (.node (.read tableName columns columnTypes partialFilter) readChildren readSubqueries ::
        children) subqueries => do
    let originalFilterCondition := condition
    let partialFilter ← updatePartialFilter catalog tableName columns condition partialFilter
    .ok (.node (.filter originalFilterCondition projectionIndices)
      (.node (.read tableName columns columnTypes partialFilter) readChildren readSubqueries ::
        children) subqueries)
  | relation => .ok relation

/-! ### Reading columns by name -/

/-- `in_memory_table::_column_name_to_index`, filled from the first name to the last. -/
def columnNameToIndex (names : List String) : String → Option Nat :=
  names.zipIdx.foldl (fun index entry => update index entry.1 (some entry.2)) fun _ => none

def getColumnIndex (names : List String) (columnName : String) : Except Failure Nat :=
  match columnNameToIndex names columnName with
  | none => .error .outOfBounds
  | some idx => .ok idx

lemma columnNameToIndex_concat (names : List String) (name : String) :
    columnNameToIndex (names ++ [name]) =
      update (columnNameToIndex names) name (some names.length) := by
  simp [columnNameToIndex, zipIdx_append]

variable {name : String}

lemma columnNameToIndex_of_getElem? {names : List String} (h : names.Nodup)
    {i : Nat} (hi : names[i]? = some name) : columnNameToIndex names name = some i := by
  induction names using reverseRecOn with
  | nil => cases hi
  | append_singleton names last ih =>
    obtain ⟨hnames, -, hlast⟩ := nodup_append.1 h
    rw [columnNameToIndex_concat]
    rw [getElem?_append] at hi
    split_ifs at hi with hlt
    · have hne : name ≠ last := hlast name (mem_of_getElem? hi) last (by simp)
      rw [update_of_ne hne, ih hnames hi]
    · obtain ⟨hi0, rfl⟩ : i - names.length = 0 ∧ last = name := by
        simpa [getElem?_singleton] using hi
      rw [update_self, Option.some.injEq]
      omega

lemma findIdx?_of_getElem? {names : List String} (h : names.Nodup) {i : Nat}
    (hi : names[i]? = some name) : names.findIdx? (· = name) = some i := by
  obtain ⟨hlt, rfl⟩ := List.getElem?_eq_some_iff.1 hi
  refine List.findIdx?_eq_some_iff_getElem.2 ⟨hlt, by simp, fun j hj => ?_⟩
  rw [decide_eq_true_iff, h.getElem_inj_iff]
  exact Nat.ne_of_lt hj

/-! ### Columns of the base table -/

def baseType (info : TableInfo) (i : Nat) : DataType := info.columnTypes.getD i .empty

/-- The read names registered columns, and its types are those of the catalog. -/
def ReadsColumns (info : TableInfo) (columns : List String) (columnTypes : List DataType) : Prop :=
  columns.map info.columnNameToType = columnTypes.map some

lemma nodup_columnNames (info : TableInfo) : info.columnNames.Nodup := info.nodup

def position (info : TableInfo) (name : String) : Nat :=
  (info.columnNames.findIdx? (· = name)).getD 0

variable {info : TableInfo}

lemma columnNames_position {type : DataType} (h : info.columnNameToType name = some type) :
    info.columnNames[position info name]? = some name ∧
      baseType info (position info name) = type := by
  obtain ⟨column, hfind, rfl⟩ := Option.map_eq_some_iff.1 h
  obtain rfl : column.name = name := by simpa using find?_some hfind
  obtain ⟨i, hi, rfl⟩ := getElem_of_mem (mem_of_find?_eq_some hfind)
  have hname : info.columnNames[i]? = some info.columns[i].name := by
    simp [TableInfo.columnNames, hi]
  have hposition : position info info.columns[i].name = i := by
    rw [position, findIdx?_of_getElem? (nodup_columnNames info) hname, Option.getD_some]
  rw [hposition]
  exact ⟨hname, by simp [baseType, info.columnTypes_eq, hi]⟩

section ReadsColumns

variable {info : TableInfo} {columns : List String} {columnTypes : List DataType}

section

variable (h : ReadsColumns info columns columnTypes)
include h

lemma ReadsColumns.exists_type {name : String}
    (hname : name ∈ columns) : ∃ type, info.columnNameToType name = some type := by
  have hmem : info.columnNameToType name ∈ columnTypes.map some :=
    h ▸ mem_map_of_mem hname
  obtain ⟨type, -, htype⟩ := mem_map.1 hmem
  exact ⟨type, htype.symm⟩

lemma ReadsColumns.mapM_getColumnIndex :
    columns.mapM (getColumnIndex info.columnNames) = .ok (columns.map (position info)) := by
  refine Fallible.mapM_eq_ok fun name hname => ?_
  obtain ⟨type, htype⟩ := h.exists_type hname
  rw [getColumnIndex, columnNameToIndex_of_getElem? (nodup_columnNames info)
    (columnNames_position htype).1]

lemma ReadsColumns.map_baseType :
    (columns.map (position info)).map (baseType info) = columnTypes := by
  apply map_injective_iff.2 fun _ _ => Option.some.inj
  rw [← h, map_map, map_map]
  refine map_congr_left fun name hname => ?_
  obtain ⟨type, htype⟩ := h.exists_type hname
  rw [htype, comp_apply, comp_apply, (columnNames_position htype).2]

/-- References are moved to where the columns are read. -/
lemma ReadsColumns.modifier_eq_ok {k : Nat} (hk : k < columns.length) :
    columnReferenceModifier (V := V) info.columnNames columns (.columnReference k) =
      .ok (some (.columnReference ((columns.map (position info)).getD k 0))) := by
  obtain ⟨type, htype⟩ := h.exists_type (getElem_mem hk)
  have hfind := findIdx?_of_getElem? (nodup_columnNames info) (columnNames_position htype).1
  have hcol : columns[k]? = some columns[k] := getElem?_eq_getElem hk
  simp only [columnReferenceModifier, hcol, hfind]
  simp [hk]

end

end ReadsColumns

lemma onlyReferences_modifier (baseTableColumns projectedColumns : List String) :
    OnlyReferences (columnReferenceModifier (V := V) baseTableColumns projectedColumns) := by
  intro e he
  cases e with
  | columnReference i => exact absurd ⟨i, rfl⟩ he
  | _ => exact .inr rfl

variable {condition : Expr V} {columnTypes : List DataType}

lemma ReadsColumns.replaceReferences_eq_ok {columns : List String}
    (h : ReadsColumns info columns columnTypes)
    (hcols : ∀ i ∈ condition.columns, i < columns.length) :
    replaceColumnReferences info.columnNames columns condition =
      .ok (condition.rename fun k => (columns.map (position info)).getD k 0) :=
  rewriteDown_eq_rename (onlyReferences_modifier _ _) _ _ le_rfl
    fun i hi => h.modifier_eq_ok (hcols i hi)

lemma ReadsColumns.updatePartialFilter_eq_ok {columns : List String}
    (h : ReadsColumns info columns columnTypes) {catalog : Catalog} {tableName : String}
    (htable : catalog tableName = some info) (hcols : ∀ i ∈ condition.columns, i < columns.length)
    (partialFilter : Option (Expr V)) :
    updatePartialFilter catalog tableName columns condition partialFilter =
      .ok (partialFilter.map fun _ =>
        condition.rename fun k => (columns.map (position info)).getD k 0) := by
  simp [updatePartialFilter, columnNames, htable, h.replaceReferences_eq_ok hcols, setExpression]

/-! ### Subqueries -/

mutual

/-- The indices of the subqueries to which an expression refers. -/
def relationIndices : Expr V → List Nat
  | .columnReference _ | .literal _ _ _ => []
  | .isNull e | .cast e _ | .unaryOp _ e | .scalarFunction _ e => relationIndices e
  | .ifThenElse c t e => relationIndices c ++ relationIndices t ++ relationIndices e
  | .binaryOp _ l r => relationIndices l ++ relationIndices r
  | .inPredicate es i => i :: relationIndicesList es

def relationIndicesList : List (Expr V) → List Nat
  | [] => []
  | e :: es => relationIndices e ++ relationIndicesList es

end

/-- The operators for the expressions of a relation with subqueries, where `contains` says whether
the result of a subquery contains some values. -/
def withSubqueries {S : Type*} (C : Cudf V) (contains : S → List (Option V) → Option V)
    (subqueries : List S) : Cudf V :=
  { C with inPredicate := fun i needles => subqueries[i]?.bind (contains · needles) }

section Subqueries

variable [LinearOrder V] {S : Type*} (C : Cudf V) (contains : S → List (Option V) → Option V)
  {subqueries subqueries' : List S} (τ : Nat → DataType) (row : Row V)

mutual

/-- Expressions of different relations have the same value if they refer to the same subqueries. -/
lemma eval_withSubqueries_congr : ∀ e : Expr V,
    (∀ i ∈ relationIndices e, subqueries[i]? = subqueries'[i]?) →
      e.eval (withSubqueries C contains subqueries) τ row =
        e.eval (withSubqueries C contains subqueries') τ row
  | .columnReference _, _ | .literal _ _ _, _ => rfl
  | .isNull e, h => by
    simp only [Expr.eval, eval_withSubqueries_congr e h]
    rfl
  | .cast e _, h | .unaryOp _ e, h | .scalarFunction _ e, h => by
    simp only [Expr.eval, eval_withSubqueries_congr e h]
    rfl
  | .ifThenElse c t e, h => by
    simp only [relationIndices, mem_append] at h
    simp only [Expr.eval, eval_withSubqueries_congr c fun i hi => h i (.inl (.inl hi)),
      eval_withSubqueries_congr t fun i hi => h i (.inl (.inr hi)),
      eval_withSubqueries_congr e fun i hi => h i (.inr hi)]
    rfl
  | .binaryOp _ l r, h => by
    simp only [relationIndices, mem_append] at h
    simp only [Expr.eval, eval_withSubqueries_congr l fun i hi => h i (.inl hi),
      eval_withSubqueries_congr r fun i hi => h i (.inr hi)]
    rfl
  | .inPredicate es i, h => by
    simp only [relationIndices, mem_cons, forall_eq_or_imp] at h
    simp only [Expr.eval, evalList_withSubqueries_congr es h.2]
    simp only [withSubqueries, h.1]

lemma evalList_withSubqueries_congr : ∀ es : List (Expr V),
    (∀ i ∈ relationIndicesList es, subqueries[i]? = subqueries'[i]?) →
      Expr.evalList (withSubqueries C contains subqueries) τ row es =
        Expr.evalList (withSubqueries C contains subqueries') τ row es
  | [], _ => rfl
  | e :: es, h => by
    simp only [relationIndicesList, mem_append] at h
    rw [Expr.evalList, Expr.evalList, eval_withSubqueries_congr e fun i hi => h i (.inl hi),
      evalList_withSubqueries_congr es fun i hi => h i (.inr hi)]

end

/-- An `IN` predicate is told from others by the subquery to which it refers. -/
lemma getElem?_of_eval_inPredicate {es es' : List (Expr V)} {i : Nat} {τ' : Nat → DataType}
    {row' : Row V}
    (h : ∀ contains : S → List (Option V) → Option V,
      (Expr.inPredicate es i).eval (withSubqueries C contains subqueries) τ row =
        (Expr.inPredicate es' i).eval (withSubqueries C contains subqueries') τ' row') :
    subqueries[i]? = subqueries'[i]? := by
  classical
  have heval : ∀ s : S,
      (subqueries[i]?.bind fun t => if t = s then some (C.ofBool true) else none) =
      subqueries'[i]?.bind fun t => if t = s then some (C.ofBool true) else none :=
    fun s => h fun t _ => if t = s then some (C.ofBool true) else none
  have hmem : ∀ s : S, subqueries[i]? = some s ↔ subqueries'[i]? = some s := by
    intro s
    have := heval s
    cases hs : subqueries[i]? <;> cases hs' : subqueries'[i]? <;>
      simp only [hs, hs', Option.bind_some, Option.bind_none, Option.some.injEq] at this ⊢
    all_goals split_ifs at this <;> simp_all
  exact Option.ext hmem

end Subqueries

/-! ### The installed filter -/

def readTable (info : TableInfo) (indexes : List Nat) (rows : List (Row V)) : Table V :=
  .materialize (baseType info) rows indexes

lemma typeOf_readTable (info : TableInfo) (indexes : List Nat) (rows : List (Row V)) :
    (readTable info indexes rows).typeOf =
      fun i => (indexes.map (baseType info)).getD i .empty := rfl

variable [LinearOrder V]

lemma eval_rename_getD (C : Cudf V) (info : TableInfo) (indexes : List Nat)
    (hcols : ∀ i ∈ condition.columns, i < indexes.length) (row : Row V) :
    (condition.rename fun k => indexes.getD k 0).eval C (baseType info) row =
      condition.eval C (fun i => (indexes.map (baseType info)).getD i .empty)
        (row.select indexes) := by
  refine Expr.eval_rename C _ _ _ _ _ condition ?_ ?_
  · intro i hi
    simp [hcols i hi]
  · intro i hi
    simp [Row.select, Row.col, hcols i hi]

/-- A filter does not see the rows that are not read if its condition, as an expression over the
base table, is not TRUE on them. -/
lemma filter_readTable_congr {C C' : Cudf V} {indexes projectionIndices : List Nat}
    {updated : Expr V} (hbool : C.toBool = C'.toBool)
    (heval : ∀ row : Row V, updated.eval C (baseType info) row =
      condition.eval C' (fun i => (indexes.map (baseType info)).getD i .empty)
        (row.select indexes))
    {rows kept : List (Row V)}
    (hkept : kept.filter (fun row => updated.IsTrue C (baseType info) row) =
      rows.filter (fun row => updated.IsTrue C (baseType info) row)) :
    (readTable info indexes kept).filter C' condition projectionIndices =
      (readTable info indexes rows).filter C' condition projectionIndices := by
  have htrue : ∀ row : Row V, condition.IsTrue C'
      (fun i => (indexes.map (baseType info)).getD i .empty) (row.select indexes) ↔
        updated.IsTrue C (baseType info) row := by
    intro row
    rw [Expr.IsTrue, Expr.IsTrue, heval row, hbool]
  have hrows : ∀ rows : List (Row V), ((readTable info indexes rows).rows.filter fun r =>
        condition.IsTrue C' (readTable info indexes rows).typeOf r) =
      if indexes.map (baseType info) = [] then [] else
        (rows.filter fun row => updated.IsTrue C (baseType info) row).map (·.select indexes) := by
    intro rows
    rw [typeOf_readTable]
    simp only [readTable, Table.materialize, Table.build]
    split_ifs
    · rfl
    · simp only [filter_map, comp_def, htrue]
  simp only [Table.filter, hrows, hkept]
  rfl

/-- The partial filter that is installed on a read has on every row of the base table the value of
the condition on the row that is read, if it refers to the same subqueries as the condition; a
condition that is an `IN` predicate has to. The filter is left as it is, and so is its output
whatever other rows the partial filter makes the read skip. -/
theorem visitFilter_eq_ok (C : Cudf V) (catalog : Catalog) (tableName : String)
    (columns : List String) (columnTypes : List DataType) (partialFilter : Option (Expr V))
    (condition : Expr V) (projectionIndices : List Nat)
    (readChildren readSubqueries subqueries : List (Plan V)) (info : TableInfo)
    (htable : catalog tableName = some info) (hread : ReadsColumns info columns columnTypes)
    (hcolumns : ∀ i ∈ condition.columns, i < columns.length) :
    ∃ indexes updated, columns.mapM (getColumnIndex info.columnNames) = .ok indexes ∧
      visitFilter catalog (.node (.filter condition projectionIndices)
          [.node (.read tableName columns columnTypes partialFilter) readChildren readSubqueries]
          subqueries) = .ok (.node (.filter condition projectionIndices)
          [.node (.read tableName columns columnTypes (partialFilter.map fun _ => updated))
            readChildren readSubqueries] subqueries) ∧
      ((∀ i ∈ relationIndices condition, readSubqueries[i]? = subqueries[i]?) →
        ∀ contains : Plan V → List (Option V) → Option V,
          (∀ row : Row V,
            updated.eval (withSubqueries C contains readSubqueries) (baseType info) row =
              condition.eval (withSubqueries C contains subqueries)
                (fun i => columnTypes.getD i .empty) (row.select indexes)) ∧
          ∀ rows kept : List (Row V),
            kept.filter (fun row => updated.IsTrue (withSubqueries C contains readSubqueries)
                (baseType info) row) =
              rows.filter (fun row => updated.IsTrue (withSubqueries C contains readSubqueries)
                (baseType info) row) →
            (readTable info indexes kept).filter (withSubqueries C contains subqueries) condition
                projectionIndices =
              (readTable info indexes rows).filter (withSubqueries C contains subqueries) condition
                projectionIndices) ∧
      ∀ needles i, condition = .inPredicate needles i →
        (∀ (contains : Plan V → List (Option V) → Option V) (row : Row V),
          updated.eval (withSubqueries C contains readSubqueries) (baseType info) row =
            condition.eval (withSubqueries C contains subqueries)
              (fun i => columnTypes.getD i .empty) (row.select indexes)) →
        readSubqueries[i]? = subqueries[i]? := by
  refine ⟨_, condition.rename fun k => (columns.map (position info)).getD k 0,
    hread.mapM_getColumnIndex, ?_, fun hsame contains => ?_, ?_⟩
  · simp [visitFilter, hread.updatePartialFilter_eq_ok htable hcolumns]
  · have heval := fun row => (eval_rename_getD (withSubqueries C contains readSubqueries) info
      (columns.map (position info)) (by simpa using hcolumns) row).trans
        (eval_withSubqueries_congr C contains _ _ condition hsame)
    have hbool : (withSubqueries C contains readSubqueries).toBool =
        (withSubqueries C contains subqueries).toBool := rfl
    refine ⟨?_, fun rows kept => filter_readTable_congr hbool heval⟩
    rw [hread.map_baseType] at heval
    exact heval
  · rintro needles i rfl h
    exact getElem?_of_eval_inPredicate C _ _ fun contains => h contains []

/-- A table with two columns, of which a read takes the second, the first and the second again. -/
def suppliers : TableInfo where
  columns := [⟨"s_suppkey", .int64⟩, ⟨"s_nationkey", .int32⟩]
  storage := .systemMemory
  nodup := by decide

/-- Which of the rows read have the same number for the supplier and the nation. -/
def sameNumber : Expr Int := .binaryOp .equal (.columnReference 1) (.columnReference 2)

def readSuppliers (partialFilter : Expr Int) : Plan Int :=
  .node (.read "supplier" ["s_nationkey", "s_suppkey", "s_nationkey"] [.int32, .int64, .int32]
    (some partialFilter)) [] []

theorem visitFilter_eq_ok_suppliers : ∃ (indexes : List Nat) (updated : Expr Int),
      visitFilter (fun _ => some suppliers)
          (.node (.filter sameNumber [0]) [readSuppliers sameNumber] []) =
        .ok (.node (.filter sameNumber [0]) [readSuppliers updated] []) ∧
      ∀ (contains : Plan Int → _) row,
        updated.eval (withSubqueries .integers contains []) (baseType suppliers) row =
        sameNumber.eval (withSubqueries .integers contains [])
          (fun i => [DataType.int32, .int64, .int32].getD i .empty) (row.select indexes) := by
  obtain ⟨indexes, updated, -, hvisit, hsame, -⟩ := visitFilter_eq_ok Cudf.integers
    (fun _ => some suppliers) "supplier" ["s_nationkey", "s_suppkey", "s_nationkey"]
    [.int32, .int64, .int32] (some sameNumber) sameNumber [0] [] [] [] suppliers rfl rfl (by decide)
  exact ⟨indexes, updated, hvisit, fun contains row => (hsame nofun contains).1 row⟩

/-- Which of the rows read have a nation that the first subquery contains. -/
def nationInSubquery : Expr Int := .inPredicate [.columnReference 0] 0

/-- The read has no subqueries, so that the predicate it gets has no value, although the condition
of the filter is TRUE. -/
theorem visitFilter_inPredicate :
    let subquery : Plan Int := .node (.userDefined 0 []) [] []
    let updated : Expr Int := .inPredicate [.columnReference 1] 0
    visitFilter (fun _ => some suppliers)
        (.node (.filter nationInSubquery [0]) [readSuppliers nationInSubquery] [subquery]) =
      .ok (.node (.filter nationInSubquery [0]) [readSuppliers updated] [subquery]) ∧
    nationInSubquery.IsTrue (withSubqueries .integers (fun _ _ => some 1) [subquery])
      (fun i => [DataType.int32, .int64, .int32].getD i .empty) [some 7, some 1, some 7] ∧
    ¬ updated.IsTrue (withSubqueries .integers (fun (_ : Plan Int) _ => some 1) [])
      (baseType suppliers) [some 1, some 7] :=
  ⟨rfl, by decide, by decide⟩

end Gqe.Optimizer
