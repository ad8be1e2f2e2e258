import Gqe.Optimizer.PartialFilters

/-!
# Shared reads

Relations are shared pointers, so that one read may be the child of several relations.
`fix_partial_filter_column_references` visits the relations from the root on, a shared one once for
every way to it, and each filter on a read replaces the partial filter of the read. What remains is
the condition of the filter that is visited last.
-/

namespace Gqe.Optimizer

open List Function

open NodeManager (Catalog TableInfo)

variable {V : Type*}

/-! ### Plans with shared relations -/

/-- A relation, with the addresses of its children and subqueries. -/
structure SharedRelation (V : Type*) where
  op : RelOp V
  children : List Nat
  subqueries : List Nat

def SharedRelation.below (r : SharedRelation V) : List Nat := r.children ++ r.subqueries

/-- The relations of a plan by address. No relation is below itself. -/
structure SharedPlan (V : Type*) where
  relation : Nat → SharedRelation V
  lt_of_mem_below : ∀ address, ∀ b ∈ (relation address).below, b < address

namespace SharedPlan

variable (D : SharedPlan V)

/-- The partial filters of the reads by address: all that the rule changes in a plan. -/
def partialFilters (address : Nat) : Option (Expr V) :=
  match (D.relation address).op with
  | .read _ _ _ partialFilter => partialFilter
  | _ => none

/-- `visit(filter_relation)`, before the children are visited. -/
def visitFilter (catalog : Catalog) (address : Nat) (s : Nat → Option (Expr V)) :
    Except Failure (Nat → Option (Expr V)) :=
  match (D.relation address).op, (D.relation address).children with
  | .filter condition _, child :: _ =>
    match (D.relation child).op with
    | .read tableName columns _ _ => do
      let partialFilter ← updatePartialFilter catalog tableName columns condition (s child)
      .ok (update s child partialFilter)
    | _ => .ok s
  | _, _ => .ok s

/-- A relation is visited before its children and its subqueries. -/
def visit (catalog : Catalog) : Nat → Nat → (Nat → Option (Expr V)) →
    Except Failure (Nat → Option (Expr V))
  | 0, _, _ => .error .tooDeep
  | bound + 1, address, s => do
    let s ← D.visitFilter catalog address s
    (D.relation address).below.foldlM (fun s b => visit catalog bound b s) s

/-- `fix_partial_filter_column_references::apply`, with the partial filters that it leaves. -/
def fixPartialFilterColumnReferences (catalog : Catalog) (root : Nat) :
    Except Failure (Nat → Option (Expr V)) :=
  D.visit catalog (root + 1) root D.partialFilters

/-! ### The order of the visits -/

/-- The relations in the order in which they are visited, from an address on. -/
def visitsWithin : Nat → Nat → List Nat
  | 0, _ => []
  | bound + 1, address => address :: (D.relation address).below.flatMap (visitsWithin bound)

def visits (root : Nat) : List Nat := D.visitsWithin (root + 1) root

/-- The condition of a relation that is a filter on the given read. -/
def conditionOn (read address : Nat) : Option (Expr V) :=
  match (D.relation address).op, (D.relation address).children with
  | .filter condition _, child :: _ => if child = read then some condition else none
  | _, _ => none

/-- The condition of the filter on a read that is visited last. -/
def lastCondition (root read : Nat) : Option (Expr V) :=
  ((D.visits root).filterMap (D.conditionOn read)).getLast?

/-- The read has a table of the catalog, of which it takes columns with their types. -/
structure IsReadOf (catalog : Catalog) (info : TableInfo) (columns : List String)
    (columnTypes : List DataType) (read : Nat) : Prop where
  exists_op : ∃ tableName partialFilter, catalog tableName = some info ∧
    (D.relation read).op = .read tableName columns columnTypes partialFilter
  readsColumns : ReadsColumns info columns columnTypes

/-- Every filter on a read refers to its columns, which the table has. -/
def IsResolved (catalog : Catalog) : Prop :=
  ∀ address read condition, D.conditionOn read address = some condition →
    ∀ tableName columns columnTypes partialFilter,
      (D.relation read).op = .read tableName columns columnTypes partialFilter →
      ∃ info, D.IsReadOf catalog info columns columnTypes read ∧
        ∀ i ∈ condition.columns, i < columns.length

variable {D} {catalog : Catalog} {address : Nat}

lemma conditionOn_eq_some {read : Nat} {condition : Expr V}
    (h : D.conditionOn read address = some condition) :
    ∃ p children, (D.relation address).op = .filter condition p ∧
      (D.relation address).children = read :: children := by
  simp only [conditionOn] at h
  split at h
  · rename_i condition' p child children hop hchildren
    split_ifs at h with heq
    obtain rfl := Option.some.inj h
    exact ⟨p, children, hop, heq ▸ hchildren⟩
  · cases h

/-- The traversal visits the filters one after another. -/
lemma visit_eq_foldlM (catalog : Catalog) (bound : Nat) {address : Nat} (h : address < bound)
    (s : Nat → Option (Expr V)) : D.visit catalog bound address s =
      (D.visitsWithin bound address).foldlM (fun s a => D.visitFilter catalog a s) s := by
  induction bound generalizing address s with
  | zero => omega
  | succ bound ih =>
    rw [visit, visitsWithin, foldlM_cons]
    refine bind_congr fun s => ?_
    have hbelow : ∀ b ∈ (D.relation address).below, b < bound := fun b hb =>
      Nat.lt_of_lt_of_le (D.lt_of_mem_below address b hb) (Nat.le_of_lt_succ h)
    generalize (D.relation address).below = below at hbelow
    induction below generalizing s with
    | nil => rfl
    | cons b below ihb =>
      rw [foldlM_cons, flatMap_cons, foldlM_append, ih (hbelow b mem_cons_self)]
      exact bind_congr fun s => ihb s fun b' hb' => hbelow b' (mem_cons_of_mem _ hb')

/-- What the condition of a filter on a read becomes on the read. -/
def installed (info : TableInfo) (columns : List String) (condition : Expr V) : Expr V :=
  condition.rename fun k => (columns.map (position info)).getD k 0

/-- One visit: the condition of a filter on a read replaces the partial filter of the read. -/
lemma exists_visitFilter (hD : D.IsResolved catalog) (address : Nat) (s : Nat → Option (Expr V)) :
    ∃ s', D.visitFilter catalog address s = .ok s' ∧
      ∀ info columns columnTypes read, D.IsReadOf catalog info columns columnTypes read →
        s' read = (s read).map
          (((D.conditionOn read address).map (installed info columns)).getD ·) := by
  simp only [visitFilter, conditionOn]
  split
  · rename_i condition p child children hop hchildren
    split
    · rename_i tableName columns columnTypes partialFilter hread
      have hcondition : D.conditionOn child address = some condition := by
        simp [conditionOn, hop, hchildren]
      obtain ⟨info, ⟨⟨tableName', partialFilter', htable, hread'⟩, hcolumns⟩, hcond⟩ :=
        hD address child condition hcondition _ _ _ _ hread
      obtain ⟨rfl, -⟩ : tableName = tableName' ∧ partialFilter = partialFilter' := by
        simpa using hread.symm.trans hread'
      refine ⟨_, by rw [hcolumns.updatePartialFilter_eq_ok htable hcond, Fallible.ok_bind], ?_⟩
      rintro info' columns' columnTypes' read ⟨⟨tableName', partialFilter', htable', hread'⟩, -⟩
      by_cases heq : child = read
      · subst heq
        obtain ⟨rfl, rfl, -⟩ : tableName = tableName' ∧ columns = columns' ∧ _ := by
          simpa using hread.symm.trans hread'
        obtain rfl : info = info' := Option.some.inj (htable.symm.trans htable')
        simp only [update_self, if_pos, Option.map_some, Option.getD_some]
        rfl
      · simp [update_of_ne (Ne.symm heq), heq]
    · rename_i hnot
      refine ⟨s, rfl, ?_⟩
      rintro info columns columnTypes read ⟨⟨tableName, partialFilter, -, hread⟩, -⟩
      have hne : child ≠ read := fun heq => hnot _ _ _ _ (heq ▸ hread)
      simp [hne]
  · exact ⟨s, rfl, fun info columns columnTypes read _ => by simp⟩

/-- A sequence of visits: the last filter on a read decides. -/
lemma exists_foldlM_visitFilter (hD : D.IsResolved catalog) (addresses : List Nat)
    (s : Nat → Option (Expr V)) :
    ∃ s', addresses.foldlM (fun s a => D.visitFilter catalog a s) s = .ok s' ∧
      ∀ info columns columnTypes read, D.IsReadOf catalog info columns columnTypes read →
        s' read = (s read).map
          (((addresses.filterMap (D.conditionOn read)).getLast?.map
            (installed info columns)).getD ·) := by
  induction addresses generalizing s with
  | nil => exact ⟨s, rfl, fun info columns columnTypes read _ => by simp⟩
  | cons address addresses ih =>
    obtain ⟨s₁, hs₁, hstep⟩ := exists_visitFilter hD address s
    obtain ⟨s₂, hs₂, hrest⟩ := ih s₁
    refine ⟨s₂, by rw [foldlM_cons, hs₁, Fallible.ok_bind, hs₂], ?_⟩
    intro info columns columnTypes read hread
    rw [hrest _ _ _ _ hread, hstep _ _ _ _ hread, Option.map_map]
    congr 1
    funext e
    cases hc : D.conditionOn read address with
    | none => simp [hc]
    | some condition =>
      rw [comp_apply, filterMap_cons_some hc, getLast?_cons]
      cases (addresses.filterMap (D.conditionOn read)).getLast? <;> rfl

/-! ### The rows that are needed -/

variable [LinearOrder V]

/-- A relation above a read needs a row: all rows unless it is a filter on the read, which needs the
rows it keeps. The columns of the read are those of the base table at `indexes`. -/
def Needs (D : SharedPlan V) (C : Cudf V) (contains : Nat → List (Option V) → Option V)
    (columnTypes : List DataType) (indexes : List Nat) (read parent : Nat) (row : Row V) : Prop :=
  read ∈ (D.relation parent).subqueries ∨ ∀ condition ∈ D.conditionOn read parent,
    condition.IsTrue (withSubqueries C contains (D.relation parent).subqueries)
      (columnTypes.getD · .empty) (row.select indexes)

/-- No row that a relation above a shared read needs is excluded by the partial filter if and only
if the read has no partial filter to be replaced, or the condition of the filter that is visited
last, with the subqueries of the read, is TRUE on all these rows. -/
theorem partialFilter_keepsRows_iff (C : Cudf V) (contains : Nat → List (Option V) → Option V)
    (catalog : Catalog) (D : SharedPlan V) (root read : Nat) (info : TableInfo)
    (columns : List String) (columnTypes : List DataType) (last : Expr V)
    (hD : D.IsResolved catalog) (hread : D.IsReadOf catalog info columns columnTypes read)
    (hlast : D.lastCondition root read = some last) :
    ∃ indexes filters, columns.mapM (getColumnIndex info.columnNames) = .ok indexes ∧
      D.fixPartialFilterColumnReferences catalog root = .ok filters ∧
      ((∀ parent ∈ D.visits root, read ∈ (D.relation parent).below →
        ∀ row : Row V, D.Needs C contains columnTypes indexes read parent row →
          ∀ e ∈ filters read, e.IsTrue (withSubqueries C contains (D.relation read).subqueries)
            (baseType info) row) ↔
      D.partialFilters read = none ∨
        ∀ parent ∈ D.visits root, read ∈ (D.relation parent).below →
          ∀ row : Row V, D.Needs C contains columnTypes indexes read parent row →
            last.IsTrue (withSubqueries C contains (D.relation read).subqueries)
              (columnTypes.getD · .empty) (row.select indexes)) := by
  obtain ⟨filters, hfilters, hresult⟩ := exists_foldlM_visitFilter hD (D.visits root)
    D.partialFilters
  rw [visits, ← visit_eq_foldlM catalog (root + 1) (Nat.lt_succ_self root)] at hfilters
  have hcols : ∀ i ∈ last.columns, i < columns.length := by
    obtain ⟨address, -, hcond⟩ := mem_filterMap.1 (mem_of_getLast? hlast)
    obtain ⟨tableName, partialFilter, -, hop⟩ := hread.exists_op
    obtain ⟨-, -, hcols⟩ := hD address read last hcond _ _ _ _ hop
    exact hcols
  have heval := eval_rename_getD (withSubqueries C contains (D.relation read).subqueries) info
    (columns.map (position info)) (show ∀ i ∈ last.columns, _ by simpa using hcols)
  rw [hread.readsColumns.map_baseType] at heval
  refine ⟨_, filters, hread.readsColumns.mapM_getColumnIndex, hfilters, ?_⟩
  have hfilter : filters read = (D.partialFilters read).map fun _ =>
      installed info columns last := by
    rw [hresult _ _ _ _ hread, ← lastCondition, hlast]
    rfl
  rw [hfilter]
  cases D.partialFilters read with
  | none => simp
  | some e =>
    simp only [Option.map_some, Option.mem_some_iff, forall_eq', reduceCtorEq, false_or, installed,
      Expr.IsTrue, heval]

end SharedPlan

/-! ### Suppliers -/

def ofSupplier (suppkey : Int) : Expr Int :=
  .binaryOp .equal (.columnReference 0) (.literal .int64 suppkey false)

/-- The union of two filters on one read. -/
def unionOfFilters (left right : Expr Int) : SharedPlan Int where
  relation
    | 0 => ⟨.read "supplier" ["s_suppkey"] [.int64] (some left), [], []⟩
    | 1 => ⟨.filter left [0], [0], []⟩
    | 2 => ⟨.filter right [0], [0], []⟩
    | 3 => ⟨.set .unionAll, [1, 2], []⟩
    | _ => ⟨.userDefined 0 [], [], []⟩
  lt_of_mem_below
    | 0 | 1 | 2 | 3 => by simp [SharedRelation.below]
    | _ + 4 => nofun

lemma isReadOf_unionOfFilters (left right : Expr Int) :
    (unionOfFilters left right).IsReadOf (fun _ => some suppliers) suppliers ["s_suppkey"] [.int64]
      0 :=
  ⟨⟨"supplier", some left, rfl, rfl⟩, rfl⟩

lemma isResolved_unionOfFilters (left right : Int) :
    (unionOfFilters (ofSupplier left) (ofSupplier right)).IsResolved fun _ => some suppliers := by
  intro address read condition hcondition tableName columns columnTypes partialFilter hread
  obtain ⟨p, children, hop, hchildren⟩ := SharedPlan.conditionOn_eq_some hcondition
  obtain ⟨rfl, hcolumns⟩ : read = 0 ∧ condition.columns = [0] := by
    match address with
    | 0 | 3 | _ + 4 => cases hop
    | 1 | 2 => cases hop; cases hchildren; exact ⟨rfl, rfl⟩
  cases hread
  refine ⟨suppliers, isReadOf_unionOfFilters _ _, ?_⟩
  simp [hcolumns]

theorem partialFilter_keepsRows_sameFilter :
    ∃ indexes filters, ["s_suppkey"].mapM (getColumnIndex suppliers.columnNames) = .ok indexes ∧
      (unionOfFilters (ofSupplier 1) (ofSupplier 1)).fixPartialFilterColumnReferences
        (fun _ => some suppliers) 3 = .ok filters ∧
      ∀ parent ∈ [1, 2], ∀ row : Row Int,
        (unionOfFilters (ofSupplier 1) (ofSupplier 1)).Needs .integers (fun _ _ => none) [.int64]
          indexes 0 parent row →
        ∀ e ∈ filters 0, e.IsTrue (withSubqueries .integers (fun (_ : Nat) _ => none) [])
          (baseType suppliers) row := by
  obtain ⟨indexes, filters, hindexes, hfilters, hiff⟩ := SharedPlan.partialFilter_keepsRows_iff
    .integers (fun _ _ => none) (fun _ => some suppliers)
    (unionOfFilters (ofSupplier 1) (ofSupplier 1)) 3 0 suppliers ["s_suppkey"] [.int64]
    (ofSupplier 1) (isResolved_unionOfFilters 1 1) (isReadOf_unionOfFilters _ _) rfl
  refine ⟨indexes, filters, hindexes, hfilters, fun parent hparent => ?_⟩
  refine hiff.2 (.inr fun parent hparent hread row hneeds => ?_) parent ?_ ?_
  · have hfilter : parent = 1 ∨ parent = 2 := by
      have : ∀ parent ∈ [3, 1, 0, 2, 0],
          0 ∈ ((unionOfFilters (ofSupplier 1) (ofSupplier 1)).relation parent).below →
            parent = 1 ∨ parent = 2 := by decide
      exact this parent hparent hread
    rcases hfilter with rfl | rfl <;> exact (hneeds.resolve_left nofun) _ rfl
  · rcases mem_pair.1 hparent with rfl | rfl <;> decide
  · rcases mem_pair.1 hparent with rfl | rfl <;> decide

/-- The row of supplier 1 is kept by the first filter, and excluded by the partial filter, which is
the condition of the second one. -/
theorem partialFilter_loses_row :
    (unionOfFilters (ofSupplier 1) (ofSupplier 2)).Needs .integers (fun _ _ => none) [.int64] [0]
      0 1 [some 1, some 7] ∧
    ∃ filters e, (unionOfFilters (ofSupplier 1) (ofSupplier 2)).fixPartialFilterColumnReferences
        (fun _ => some suppliers) 3 = .ok filters ∧ filters 0 = some e ∧
      ¬ e.IsTrue (withSubqueries .integers (fun (_ : Nat) _ => none) []) (baseType suppliers)
        [some 1, some 7] := by
  refine ⟨.inr fun condition hcondition => ?_, _, ofSupplier 2, rfl, rfl, by decide⟩
  obtain rfl := Option.some.inj hcondition
  decide

end Gqe.Optimizer
