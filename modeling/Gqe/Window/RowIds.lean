import Gqe.Join.ShuffleCorrectness
import Gqe.Lib.Numbering
import Gqe.Window.Tasks

/-!
# Row ids of serialized plans

The numbers of the rows start at the ids of the tasks that give them. In a plan as it was built, the
window and the join see the same tasks, and every row meets its value. In a plan that was sent to
another process, they see tasks of their own with other ids, and no row meets anything.
-/

namespace Gqe.Window

open Join TaskGraph Fallible List ListJoin Numbering DataType Function
open TaskGraph.Builder

variable {V : Type} {p : Row V × Nat} {input : Partitions V} {ids ids' : List Nat}
  {window : PhysicalWindow V} {results : Task → Except Failure (Table V)} {ctx : Context}
  {b : Builder}

/-! ### Numbered inputs -/

/-- The rows of an input with the numbers that tasks with given ids give them. -/
def idRows (input : Partitions V) (ids : List Nat) : List (Row V × Nat) :=
  numberParts (2 ^ 32) ids (input.parts.map (·.rows))

lemma map_fst_idRows (hids : ids.length = input.parts.length) :
    (idRows input ids).map (·.1) = input.whole.rows := by
  rw [idRows, map_fst_numberParts (by simpa using hids)]
  rfl

lemma length_of_mem_idRows (hids : ids.length = input.parts.length)
    (hp : p ∈ idRows input ids) : p.1.length = input.types.length := by
  have hmem : p.1 ∈ input.whole.rows := map_fst_idRows hids ▸ mem_map_of_mem hp
  exact input.whole.length_row p.1 hmem

/-- With other numbers on the other side, no row meets anything. -/
lemma inner_idRows_eq_nil (hdisj : ids.Disjoint ids')
    (hsz : ∀ t ∈ input.parts, t.rows.length ≤ 2 ^ 32) :
    ListJoin.inner (fun p q => decide (q.2 = p.2)) (idRows input ids) (idRows input ids') = [] := by
  have hlens : ∀ rows ∈ input.parts.map (·.rows), rows.length ≤ 2 ^ 32 := by
    simpa using hsz
  apply inner_eq_nil
  intro p hp q hq
  rw [decide_eq_false_iff_not]
  exact (snd_ne_of_disjoint hdisj hlens hlens hp hq).symm

variable [LinearOrder V] {J : CudfWindows V}

def withId (J : CudfWindows V) (p : Row V × Nat) : Row V := p.1 ++ [some (J.ofUInt64 p.2)]

lemma col_withId {n : Nat} (hp : p.1.length = n) : (withId J p).col n = some (J.ofUInt64 p.2) := by
  rw [← hp]
  exact Row.col_append_right p.1 [some (J.ofUInt64 p.2)] 0

def numbered (J : CudfWindows V) (input : Partitions V) (ids : List Nat)
    (hids : ids.length = input.parts.length) : Partitions V where
  types := input.types ++ [.uint64]
  parts := zipWith (genIdentCol J) ids input.parts
  nonempty := by
    rw [← length_pos_iff, length_zipWith, hids, Nat.min_self, length_pos_iff]
    exact input.nonempty
  types_eq := by
    intro t ht
    obtain ⟨i, hi, rfl⟩ := getElem_of_mem ht
    rw [getElem_zipWith]
    exact congrArg (· ++ [uint64]) (input.types_eq _ (getElem_mem _))

lemma rows_genIdentCol (taskId : Nat) (t : Table V) :
    (genIdentCol J taskId t).rows = (number (2 ^ 32) taskId t.rows).map (withId J) := by
  rw [number, ← Nat.shiftLeft_eq]
  rfl

lemma rows_numbered (hids : ids.length = input.parts.length) :
    (numbered J input ids hids).whole.rows = (idRows input ids).map (withId J) := by
  have hrows : (numbered J input ids hids).whole.rows =
      (zipWith (genIdentCol J) ids input.parts).flatMap (·.rows) := rfl
  rw [hrows, idRows, numberParts, map_flatten, map_zipWith, zipWith_map_right,
    flatMap_def, map_zipWith]
  simp [rows_genIdentCol]

/-! ### The window task -/

/-- The value of the window function for a row of the input. -/
def rowValue (J : CudfWindows V) (window : PhysicalWindow V) (input : Partitions V) (r : Row V) :
    Option V :=
  let cell := windowCell J.expressions window input.whole.typeOf
  J.windowValue window (input.whole.rows.map cell) (cell r)

/-- The expressions of a window are over the columns of the input. -/
def HasColumns (types : List DataType) (window : PhysicalWindow V) : Prop :=
  ∀ e ∈ window.partitionBy ++ window.orderBy ++ window.arguments, ∀ i ∈ e.columns, i < types.length

variable {types : List DataType}

/-- The column of numbers is not seen by the window function. -/
lemma windowCell_withId (hwindow : HasColumns types window) (hp : p.1.length = types.length) :
    windowCell J.expressions window ((types ++ [uint64]).getD · .empty) (withId J p) =
      windowCell J.expressions window (types.getD · .empty) p.1 := by
  have hmap : ∀ es : List (Expr V),
      (∀ e ∈ es, e ∈ window.partitionBy ++ window.orderBy ++ window.arguments) →
      es.map (·.eval J.expressions ((types ++ [uint64]).getD · .empty) (withId J p)) =
        es.map (·.eval J.expressions (types.getD · .empty) p.1) := by
    intro es hes
    apply map_congr_left
    intro e he
    have hcols := hwindow e (hes e he)
    exact e.eval_congr J.expressions (fun i hi => getD_append _ _ _ _ (hcols i hi))
      fun i hi => Row.col_append_left (hp ▸ hcols i hi)
  simp only [windowCell]
  rw [hmap window.partitionBy (by simp +contextual), hmap window.orderBy (by simp +contextual),
    hmap window.arguments (by simp +contextual)]

omit [LinearOrder V] in
lemma checkWindow_concat {ordinal : AggregationKind → Nat} (hwindow : HasColumns types window) :
    checkWindow ordinal window ((types ++ [uint64]).getD · .empty) =
      checkWindow ordinal window (types.getD · .empty) := by
  unfold checkWindow
  split
  · rfl
  · rename_i order horder
    have htype : order.dataType ((types ++ [uint64]).getD · .empty) =
        order.dataType (types.getD · .empty) :=
      order.dataType_congr fun i hi => getD_append _ _ _ _ (hwindow order (by simp [horder]) i hi)
    rw [htype]
  · rfl

/-- A window task gives every row its value, beside its number. -/
lemma partitionAndOrder_eq_ok (hwindow : HasColumns input.types window)
    (hident : window.identCols = [.columnReference input.types.length])
    (hcheck : checkWindow J.ordinal window input.whole.typeOf = .ok ()) {t : Table V}
    (htys : t.types = input.types ++ [.uint64]) (hrows : t.rows = (idRows input ids).map (withId J))
    (hids : ids.length = input.parts.length) :
    ∃ u, windowPartitionAndOrder J window t = .ok u ∧ u.types.length = 2 ∧
      u.rows.Perm ((idRows input ids).map fun p =>
        [some (J.ofUInt64 p.2), rowValue J window input p.1]) := by
  have hτ : ∀ s : Table V, s.types = t.types →
      s.typeOf = ((input.types ++ [uint64]).getD · .empty) := by
    intro s hs
    funext i
    rw [Table.typeOf, hs, htys]
  have hlen : ∀ p ∈ idRows input ids, p.1.length = input.types.length :=
    fun p => length_of_mem_idRows hids
  have hcell : ∀ p ∈ idRows input ids,
      windowCell J.expressions window (J.sort window t).typeOf (withId J p) =
        windowCell J.expressions window input.whole.typeOf p.1 := by
    intro p hp
    rw [hτ _ (J.sort_types window t), windowCell_withId hwindow (hlen p hp)]
    rfl
  have hcells : ((J.sort window t).rows.map
      (windowCell J.expressions window (J.sort window t).typeOf)).Perm
        (input.whole.rows.map (windowCell J.expressions window input.whole.typeOf)) := by
    refine ((J.sort_rows window t).map _).trans (.of_eq ?_)
    rw [hrows, ← map_fst_idRows hids, map_map, map_map]
    exact map_congr_left hcell
  have hcheck' : checkWindow J.ordinal window t.typeOf = .ok () := by
    rw [hτ t rfl, checkWindow_concat hwindow]
    exact hcheck
  refine ⟨_, by rw [windowPartitionAndOrder, hcheck']; rfl, by simp [hident], ?_⟩
  rw [Table.build]
  simp only
  rw [if_neg (by simp)]
  refine ((J.sort_rows window t).map _).trans (.of_eq ?_)
  rw [hrows, map_map]
  apply map_congr_left
  intro p hp
  have hid := col_withId (J := J) (hlen p hp)
  simp only [comp_apply, hcell p hp, J.windowValue_perm window hcells, hident,
    map_singleton, Expr.eval, hid]
  rfl

/-! ### The join -/

def rowIdKeys (numInputCols : Nat) : JoinKeys V where
  leftKeyExprs := [.columnReference numInputCols]
  rightKeyExprs := [.columnReference (numInputCols + 1)]
  compareNulls := some .unequal

variable {u : Table V}

lemma holds_rowIdKeys {types types' : List DataType}
    (hp : p.1.length = types.length) (id : Nat) (v : Option V) :
    (rowIdKeys types.length).holds J.toCudfJoins (types ++ [.uint64]) types' (withId J p)
      [some (J.ofUInt64 id), v] = decide (id = p.2) := by
  have hid := col_withId (J := J) hp
  simp only [JoinKeys.holds, JoinKeys.keysHold, JoinKeys.predicatesHold, rowIdKeys, Join.keyOf,
    keysEqual, cellsEqual, map_singleton, Expr.rename, Expr.eval, Nat.sub_zero, hid]
  simp [Row.col, J.ofUInt64_injective.eq_iff, eq_comm]

/-- The rows of the join are those of the join by numbers. -/
lemma rows_joinBy_rowIdKeys (hids : ids.length = input.parts.length)
    (hu : u.rows.Perm ((idRows input ids').map fun p =>
      [some (J.ofUInt64 p.2), rowValue J window input p.1])) :
    (joinBy J.toCudfJoins (rowIdKeys input.types.length) .inner
        (range input.types.length ++ [input.types.length + 2])
        (numbered J input ids hids).whole u).rows.Perm
      ((ListJoin.inner (fun p q => decide (q.2 = p.2)) (idRows input ids) (idRows input ids')).map
        fun pq => pq.1.1 ++ [rowValue J window input pq.2.1]) := by
  have hinner := inner_perm
    ((rowIdKeys input.types.length).holds J.toCudfJoins (input.types ++ [.uint64]) u.types)
    (.of_eq (rows_numbered (J := J) hids)) hu
  have hholds : ∀ p ∈ idRows input ids, ∀ q ∈ idRows input ids',
      (rowIdKeys input.types.length).holds J.toCudfJoins (input.types ++ [.uint64]) u.types
        (withId J p) [some (J.ofUInt64 q.2), rowValue J window input q.1] = decide (q.2 = p.2) :=
    fun p hp q _ => holds_rowIdKeys (length_of_mem_idRows hids hp) q.2 _
  rw [inner_map, inner_congr hholds] at hinner
  rw [joinBy, rows_materialize_eq, if_neg (by simp)]
  refine ((hinner.map _).map _).trans (.of_eq ?_)
  simp only [map_map]
  apply map_congr_left
  rintro ⟨p, q⟩ hpq
  have hselect := select_append_concat p.1 [some (J.ofUInt64 p.2), some (J.ofUInt64 q.2)]
    (rowValue J window input q.1)
  rw [length_of_mem_idRows hids (mem_inner.1 hpq).1] at hselect
  simpa [withId] using hselect

/-- With the same numbers on both sides, every row meets its value. -/
lemma inner_idRows_self (hids : ids.length = input.parts.length) (hnd : ids.Nodup)
    (hsz : ∀ t ∈ input.parts, t.rows.length ≤ 2 ^ 32) :
    (ListJoin.inner (fun p q => decide (q.2 = p.2)) (idRows input ids) (idRows input ids)).map
        (fun pq => pq.1.1 ++ [rowValue J window input pq.2.1]) =
      orderedWindowRows J window input.whole := by
  have hlens : ∀ rows ∈ input.parts.map (·.rows), rows.length ≤ 2 ^ 32 := by
    simpa using hsz
  have hinner := inner_map_of_nodup (f := id) (m := fun p q => decide (q.2 = p.2))
    (nodup_snd_numberParts hnd hlens) fun _ _ _ _ => rfl
  rw [map_id, ← idRows] at hinner
  have hrows : orderedWindowRows J window input.whole =
      input.whole.rows.map fun r => r ++ [rowValue J window input r] := rfl
  rw [hinner, hrows, ← map_fst_idRows hids, map_map, map_map]
  rfl

/-! ### The results of the tasks -/

lemma mapM_genIdentColResult {tasks : List Task} {parts : List (Table V)}
    (h : tasks.mapM results = .ok parts) :
    (visitEach .genIdentCol tasks b).1.mapM (genIdentColResult J results) =
      .ok (zipWith (genIdentCol J) (range' b.currentTaskId tasks.length) parts) := by
  rw [mapM_eq_ok_iff] at h ⊢
  induction h generalizing b with
  | nil => exact .nil
  | cons htask _ ih =>
    refine .cons ?_ ih
    simp [genIdentColResult, Task.dependencies, htask]

/-- A window task sees all numbered rows, whether they are concatenated or not. -/
lemma windowInput_concatenate {gens : List Task} {numberedParts : Partitions V}
    (hgens : gens.mapM (genIdentColResult J results) = .ok numberedParts.parts)
    (hkind : ∀ t ∈ gens, t.kind = .genIdentCol) (isPipelineBreaker : Bool) :
    ∃ u, windowInput J results (b.concatenate gens isPipelineBreaker).1 = .ok u ∧
      u.types = numberedParts.types ∧ u.rows = numberedParts.whole.rows := by
  rcases concatenate_cases gens isPipelineBreaker b with ⟨t, rfl, heq⟩ | ⟨-, heq⟩
  · obtain ⟨u, rest, hu, hrest, hparts⟩ := forall₂_cons_left_iff.1 (mapM_eq_ok_iff.1 hgens)
    obtain rfl := forall₂_nil_left_iff.1 hrest
    have hkind' : t.kind ≠ .concatenate := by simp [hkind t mem_cons_self]
    refine ⟨u, ?_, ?_, ?_⟩
    · rw [heq, windowInput, if_neg hkind', hu]
    · exact numberedParts.types_eq u (by simp [hparts])
    · simp [Partitions.whole, hparts]
  · obtain ⟨u, hu, htys, hrows⟩ :=
      concatenate_eq_ok numberedParts.nonempty numberedParts.types_eq
    refine ⟨u, ?_, htys, hrows⟩
    rw [heq]
    simp only [windowInput, newTask, Task.dependencies, hgens]
    exact hu

lemma mapM_joinInputs {lefts : List Task} {leftTables : List (Table V)} {task : Task} {u : Table V}
    (hlefts : lefts.mapM (genIdentColResult J results) = .ok leftTables)
    (htask : windowResult J window results task = .ok u) :
    (b.newTasks .join [] (lefts.map fun l => [l, task])).1.mapM (joinInputs J window results) =
      .ok (leftTables.map fun l => (l, u)) := by
  rw [mapM_eq_ok_iff] at hlefts ⊢
  induction hlefts generalizing b with
  | nil => exact .nil
  | cons hl _ ih =>
    refine .cons ?_ ih
    simp [joinInputs, Task.dependencies, hl, htask]

/-! ### The generated tasks -/

variable {child : PhysicalRelation} {windowId joinId : Nat} {b₁ b₂ : Builder} {tasks : List Task}

/-- A plan of a window with an order, whose two uses of the numbers may have been separated. -/
def windowPlan (joinId leftId windowId rightId : Nat) (left right : PhysicalRelation) :
    PhysicalRelation :=
  .binary joinId (.broadcastJoin .inner .right) (.unary leftId .genIdentCol left)
    (.unary windowId .window (.unary rightId .genIdentCol right))

lemma generate_genIdentCol {id : Nat} (hid : b.tasksCache id = none)
    (hch : generateTasks ctx child b = .ok (tasks, b₁)) :
    generateTasks ctx (.unary id .genIdentCol child) b =
      .ok ((visitEach .genIdentCol tasks b₁).1, ((visitEach .genIdentCol tasks b₁).2.updateCache id
        (visitEach .genIdentCol tasks b₁).1)) := by
  simp only [generateTasks, cached, hid, hch]
  rfl

/-- The tasks of the window: numbers for the tasks of the child, and one task for all of them. -/
lemma generateTasks_window {id : Nat} (hwindow : b.tasksCache windowId = none)
    (hid : b.tasksCache id = none) (hch : generateTasks ctx child b = .ok (tasks, b₁)) :
    ∃ (task : Task) (b₂ b₃ : Builder),
      generateTasks ctx (.unary windowId .window (.unary id .genIdentCol child)) b =
        .ok ([task], b₃) ∧
      task.dependencies = [(b₂.concatenate (visitEach .genIdentCol tasks b₁).1 true).1] ∧
      b₁.currentTaskId + tasks.length ≤ b₃.currentTaskId ∧
      b₃.tasksCache = update (update b₁.tasksCache id
        (some (visitEach .genIdentCol tasks b₁).1)) windowId (some [task]) := by
  have hgens := generate_genIdentCol hid hch
  rcases heach : visitEach .genIdentCol tasks b₁ with ⟨gens, b₂⟩
  rw [heach] at hgens
  rcases hconc : (b₂.updateCache id gens).concatenate gens true with ⟨input, b₃⟩
  have hskip : (visitEach .genIdentCol tasks b₁).2 = b₁.skip tasks.length := by
    rw [visitEach, newTasks_snd, length_map]
  rw [heach] at hskip
  obtain rfl : b₂ = b₁.skip tasks.length := hskip
  have hle : b₁.currentTaskId + tasks.length ≤ b₃.currentTaskId := by
    rcases concatenate_cases gens true ((b₁.skip tasks.length).updateCache id gens) with
      ⟨t, -, heq⟩ | ⟨-, heq⟩ <;> cases heq.symm.trans hconc
    · exact le_rfl
    · exact Nat.le_succ _
  have hcache := cache_concatenate hconc
  refine ⟨.mk b₃.currentTaskId b₃.currentStageId .window [input] [],
    (b₁.skip tasks.length).updateCache id gens,
    (b₃.skip 1).updateCache windowId [.mk b₃.currentTaskId b₃.currentStageId .window [input] []],
    ?_, ?_, ?_, ?_⟩
  · rw [generateTasks, cached, hwindow]
    simp only [visitUnary, hgens, ok_bind, visitConcatenated, hconc]
    rfl
  · rw [Task.dependencies, hconc]
  · exact Nat.le_succ_of_le hle
  · exact congrArg (update · windowId _) hcache

lemma generate_windowPlan {leftId rightId : Nat}
    {left right : PhysicalRelation} {task : Task} {lefts : List Task}
    (hjoin : b.tasksCache joinId = none)
    (hr : generateTasks ctx (.unary windowId .window (.unary rightId .genIdentCol right)) b =
      .ok ([task], b₁)) (hl : generateTasks ctx (.unary leftId .genIdentCol left)
      (b₁.insertPipelineBreaker [task]) = .ok (lefts, b₂)) :
    ∃ b', generateTasks ctx (windowPlan joinId leftId windowId rightId left right) b =
      .ok ((b₂.newTasks .join [] (lefts.map fun l => [l, task])).1, b') := by
  refine ⟨(b₂.newTasks .join [] (lefts.map fun l => [l, task])).2.updateCache joinId
    (b₂.newTasks .join [] (lefts.map fun l => [l, task])).1, ?_⟩
  rw [windowPlan, generateTasks, cached, hjoin]
  simp only [visitBinary, visitBroadcastJoin, visitBroadcastRight, hr, hl, ok_bind]
  rfl

/-! ### Runs -/

variable {join : BroadcastJoin V}

def rowIdJoin (numInputCols : Nat) (joinUseHashMapCache useJoinPerfectHashing : Bool) :
    BroadcastJoin V :=
  windowJoin
    (.binaryOp .equal (.columnReference numInputCols) (.columnReference (numInputCols + 1)))
    (range numInputCols ++ [numInputCols + 2]) joinUseHashMapCache useJoinPerfectHashing

/-- Join tasks whose left inputs were numbered by tasks with the ids `ids`, and whose window was
numbered by tasks with the ids `ids'`. -/
structure RowIdTasks (J : CudfWindows V) (results : Task → Except Failure (Table V))
    (input : Partitions V) (ids ids' : List Nat) (joins : List Task) : Prop where
  length_ids : ids.length = input.parts.length
  length_ids' : ids'.length = input.parts.length
  tasks : ∃ (lefts gens : List Task) (task : Task) (b b' : Builder),
    joins = (b.newTasks .join [] (lefts.map fun l => [l, task])).1 ∧
    lefts.mapM (genIdentColResult J results) = .ok (zipWith (genIdentCol J) ids input.parts) ∧
    gens.mapM (genIdentColResult J results) = .ok (zipWith (genIdentCol J) ids' input.parts) ∧
    (∀ t ∈ gens, t.kind = .genIdentCol) ∧ task.dependencies = [(b'.concatenate gens true).1]

namespace RowIdTasks

variable {joins : List Task} {joinUseHashMapCache useJoinPerfectHashing : Bool}

/-- The inputs of the join tasks: a numbered part, and what the window task makes of all numbered
rows. -/
lemma exists_windowInput (h : RowIdTasks J results input ids ids' joins)
    (window : PhysicalWindow V) : ∃ t : Table V, t.types = input.types ++ [.uint64] ∧
      t.rows = (idRows input ids').map (withId J) ∧
      (∀ u, windowPartitionAndOrder J window t = .ok u → joins.mapM (joinInputs J window results) =
          .ok ((numbered J input ids h.length_ids).parts.map fun l => (l, u))) ∧
      ∀ inputs, joins.mapM (joinInputs J window results) = .ok inputs →
        ∃ u, windowPartitionAndOrder J window t = .ok u := by
  obtain ⟨lefts, gens, task, b, b', rfl, hlefts, hgens, hkind, hdeps⟩ := h.tasks
  obtain ⟨t, ht, htys, hrows⟩ := windowInput_concatenate (b := b')
    (show gens.mapM (genIdentColResult J results) = .ok (numbered J input ids' h.length_ids').parts
      from hgens) hkind true
  have hwindow : windowResult J window results task = windowPartitionAndOrder J window t := by
    simp [windowResult, hdeps, ht]
  refine ⟨t, htys, hrows.trans (rows_numbered _), fun u hu => ?_, fun inputs hins => ?_⟩
  · exact mapM_joinInputs hlefts (hwindow.trans hu)
  · have hne : lefts ≠ [] := by
      rintro rfl
      exact (numbered J input ids h.length_ids).nonempty (Except.ok.inj hlefts).symm
    obtain ⟨l, rest, rfl⟩ := exists_cons_of_ne_nil hne
    obtain ⟨pair, hpair⟩ := forall_of_mapM_eq_ok hins _ mem_cons_self
    obtain ⟨left, -, hpair⟩ := bind_eq_ok hpair
    obtain ⟨u, hu, -⟩ := bind_eq_ok hpair
    exact ⟨u, hwindow ▸ hu⟩

lemma rowIdJoin_isSupported (hids : ids.length = input.parts.length) {u : Table V}
    (hu : u.types.length = 2)
    (hperfect : joinUseHashMapCache = false → useJoinPerfectHashing = false) :
    (rowIdJoin input.types.length joinUseHashMapCache useJoinPerfectHashing).IsSupported
      (numbered J input ids hids) (single u) (rowIdKeys input.types.length) where
  parse := rfl
  keys := {
    left := by
      simp only [rowIdKeys, forall_mem_singleton]
      exact .columnReference (Nat.zero_le _) (by simp [numbered])
    right := by
      simp only [rowIdKeys, forall_mem_singleton]
      exact .columnReference (by simp [numbered]) (by simp [numbered, single, hu])
    predicates := nofun }
  joinType := .inl rfl
  perfectHashing _ := hperfect
  projection := by
    simp only [rowIdJoin, windowJoin, joinTypes, length_append, mem_append, mem_range,
      mem_singleton, Partitions.whole, single, numbered, length_singleton]
    omega

/-- The keys of the join are the numbers of the rows, which are columns. -/
lemma areEvaluated_rowIdKeys {C : Cudf V} (hids : ids.length = input.parts.length) {u l : Table V}
    (hu : u.types.length = 2) (hl : l ∈ (numbered J input ids hids).parts) :
    (rowIdKeys input.types.length).AreEvaluated C l (single u).whole := by
  have htypes : l.types.length = input.types.length + 1 := by
    rw [(numbered J input ids hids).types_eq l hl]
    simp [numbered]
  constructor
  · apply exists_evaluate_columns
    simp only [rowIdKeys, forall_mem_singleton]
    exact ⟨_, rfl, Nat.zero_le _, by omega⟩
  · apply exists_evaluate_columns
    simp only [rowIdKeys, forall_mem_singleton, whole_single]
    exact ⟨_, rfl, by omega, by omega⟩

variable {plan : PhysicalRelation} {b' : Builder}
  (h : RowIdTasks J results input ids ids' joins)
  (hplan : generateTasks ctx plan b = .ok (joins, b')) (hwindow : HasColumns input.types window)

include h hplan hwindow

/-- The join tasks join the numbered rows by their numbers. -/
lemma run_eq_ok (hident : window.identCols = [.columnReference input.types.length])
    (hperfect : joinUseHashMapCache = false → useJoinPerfectHashing = false)
    (hcheck : checkWindow J.ordinal window input.whole.typeOf = .ok ()) :
    ∃ tables : List (Table V), runRowIdPlan J window (rowIdJoin input.types.length
        joinUseHashMapCache useJoinPerfectHashing) results ctx plan b = .ok (tables.map .table) ∧
      (tables.flatMap (·.rows)).Perm ((ListJoin.inner (fun p q => decide (q.2 = p.2))
          (idRows input ids) (idRows input ids')).map
        fun pq => pq.1.1 ++ [rowValue J window input pq.2.1]) := by
  obtain ⟨t, htys, hrows, hins, -⟩ := h.exists_windowInput window
  obtain ⟨u, hu, hutypes, hurows⟩ :=
    partitionAndOrder_eq_ok hwindow hident hcheck htys hrows h.length_ids'
  obtain ⟨tables, htabs, hperm⟩ := run_right_eq_ok
    (rowIdJoin_isSupported h.length_ids hutypes hperfect) rfl
    (JoinKeys.findRightTypes_of_columns (by simp [rowIdKeys]))
    fun l hl => areEvaluated_rowIdKeys h.length_ids hutypes hl
  rw [whole_single] at hperm
  refine ⟨tables, ?_, hperm.trans (rows_joinBy_rowIdKeys h.length_ids hurows)⟩
  rw [runRowIdPlan, hplan, ← htabs]
  change joins.mapM (joinInputs J window results) >>= _ = _
  rw [hins u hu]
  simp [BroadcastJoin.run, rowIdJoin, windowJoin]

/-- What the join tasks return was checked, and joined without perfect hashing or with a cached hash
map. -/
lemma checkWindow_of_run {run : List (TaskResult V)}
    (hrun : runRowIdPlan J window (rowIdJoin input.types.length joinUseHashMapCache
      useJoinPerfectHashing) results ctx plan b = .ok run) :
    (joinUseHashMapCache = false → useJoinPerfectHashing = false) ∧
      checkWindow J.ordinal window input.whole.typeOf = .ok () := by
  obtain ⟨t, htys, -, hins, hwindowInput⟩ := h.exists_windowInput window
  rw [runRowIdPlan, hplan] at hrun
  change joins.mapM (joinInputs J window results) >>= _ = _ at hrun
  obtain ⟨inputs, hins', hrun⟩ := bind_eq_ok hrun
  obtain ⟨u, hu⟩ := hwindowInput inputs hins'
  obtain rfl : (numbered J input ids h.length_ids).parts.map (fun l => (l, u)) = inputs :=
    Except.ok.inj ((hins u hu).symm.trans hins')
  obtain ⟨l, hl⟩ := exists_mem_of_ne_nil _ (numbered J input ids h.length_ids).nonempty
  obtain ⟨cache, result, hexec⟩ := exists_execute_of_run hrun _ (mem_map_of_mem hl)
  refine ⟨?_, ?_⟩
  · rintro rfl
    exact perfectHashing_of_execute hexec
      (show parseJoinCondition {} _ = .ok (rowIdKeys input.types.length) from rfl) rfl rfl rfl
  obtain ⟨⟨⟩, hcheck, -⟩ := bind_eq_ok hu
  have hτ : t.typeOf = ((input.types ++ [uint64]).getD · .empty) := by
    funext i
    rw [Table.typeOf, htys]
  rw [hτ, checkWindow_concat hwindow] at hcheck
  exact hcheck

end RowIdTasks

/-- The tasks of every copy of the child of a window deliver the partitions of the input. The second
copy is only generated if it is not the first. -/
def ChildDelivers (results : Task → Except Failure (Table V)) (ctx : Context) (input : Partitions V)
    (b : Builder) : PhysicalRelation → Prop
  | .binary _ _ (.unary leftId _ left) (.unary windowId op (.unary rightId op' right)) =>
    (∃ tasks b₁, generateTasks ctx right b = .ok (tasks, b₁) ∧
      tasks.mapM results = .ok input.parts) ∧
    ∀ tasks b₁, generateTasks ctx (.unary windowId op (.unary rightId op' right)) b =
        .ok (tasks, b₁) → b₁.tasksCache leftId = none →
      ∃ lefts b₂, generateTasks ctx left (b₁.insertPipelineBreaker tasks) = .ok (lefts, b₂) ∧
        lefts.mapM results = .ok input.parts
  | _ => False

/-- In a plan as it was built, the window and the join see the same numbers. -/
lemma rowIdTasks_rowIdPlan {genIdentId : Nat}
    (hids : genIdentId ≠ windowId) (hgen : b.tasksCache genIdentId = none)
    (hwindow : b.tasksCache windowId = none) (hjoin : b.tasksCache joinId = none)
    (hdel : ChildDelivers results ctx input b (rowIdPlan genIdentId windowId joinId child)) :
    ∃ joins b' ids, generateTasks ctx (rowIdPlan genIdentId windowId joinId child) b =
      .ok (joins, b') ∧ ids.Nodup ∧ RowIdTasks J results input ids ids joins := by
  obtain ⟨⟨tasks, b₁, hch, hparts⟩, -⟩ := hdel
  obtain ⟨task, b₂, b₃, hr, hdeps, -, hcache⟩ :=
    generateTasks_window hwindow hgen hch
  have hcached : b₃.tasksCache genIdentId = some (visitEach .genIdentCol tasks b₁).1 := by
    rw [hcache, update_of_ne hids, update_self]
  have hl : generateTasks ctx (.unary genIdentId .genIdentCol child)
      (b₃.insertPipelineBreaker [task]) =
      .ok ((visitEach .genIdentCol tasks b₁).1, b₃.insertPipelineBreaker [task]) := by
    have hcached' : (b₃.insertPipelineBreaker [task]).tasksCache genIdentId =
        some (visitEach .genIdentCol tasks b₁).1 := hcached
    rw [generateTasks, cached, hcached']
  obtain ⟨b', hplan⟩ := generate_windowPlan hjoin hr hl
  have hlen := (mapM_eq_ok_iff.1 hparts).length_eq
  refine ⟨_, b', range' b₁.currentTaskId tasks.length, hplan, nodup_range', ?_⟩
  have hgens := mapM_genIdentColResult (J := J) (b := b₁) hparts
  exact ⟨by simpa using hlen, by simpa using hlen, _, _, task, _, b₂, rfl, hgens, hgens,
    fun t ht => (mem_newTasks ht).2.2.2.1, hdeps⟩

/-- A plan that was serialized and deserialized, at addresses from `next` on. -/
def roundTrip (plan : PhysicalRelation) (next : Nat) : PhysicalRelation :=
  (deserializePhysicalPlan (serializePhysicalPlan plan) next).1

/-- A plan that was sent to another process has two relations for the numbers, and the window and
the join see different numbers. -/
lemma rowIdTasks_roundTrip {genIdentId next : Nat}
    (hb : Sound b) (hcache : ∀ id, next ≤ id → b.tasksCache id = none)
    (hdel : ChildDelivers results ctx input b
      (roundTrip (rowIdPlan genIdentId windowId joinId child) next)) :
    ∃ joins b' ids ids', generateTasks ctx
        (roundTrip (rowIdPlan genIdentId windowId joinId child) next) b = .ok (joins, b') ∧
      ids.Disjoint ids' ∧ RowIdTasks J results input ids ids' joins := by
  set pb := serializePhysicalPlan child
  set leftId := (deserializePhysicalPlan pb next).2
  set rightId := (deserializePhysicalPlan pb (leftId + 1)).2
  set right := (deserializePhysicalPlan pb (leftId + 1)).1 with hrightPlan
  have hleftId : next < leftId := lt_deserialize pb next
  have hrightId : leftId + 1 < rightId := lt_deserialize pb (leftId + 1)
  obtain ⟨⟨tasks, b₁, hch, hparts⟩, hl⟩ := hdel
  obtain ⟨task, b₂, b₃, hr, hdeps, hle, -⟩ := generateTasks_window
    (hcache (rightId + 1) (by omega)) (hcache rightId (by omega)) hch
  have hnot : leftId ∉ (PhysicalRelation.unary (rightId + 1) .window
      (.unary rightId .genIdentCol right)).ids := by
    simp only [PhysicalRelation.ids, mem_cons]
    rintro (heq | heq | hmem)
    · omega
    · omega
    · have hle := (mem_ids_deserialize hmem).1
      omega
  have hnone : b₃.tasksCache leftId = none := by
    rw [generate_keepsCache _ hr leftId hnot]
    exact hcache leftId hleftId.le
  obtain ⟨lefts, b₄, hlefts, hparts'⟩ := hl [task] b₃ hr hnone
  obtain ⟨hb₃, htask, -⟩ := generate_keepsSound _ hr hb
  obtain ⟨-, -, hbefore⟩ :=
    generate_keepsSound _ hlefts (hb₃.insertPipelineBreaker htask)
  obtain ⟨b', hplan⟩ := generate_windowPlan (hcache (rightId + 2) (by omega)) hr
    (generate_genIdentCol hnone hlefts)
  have hlen := (mapM_eq_ok_iff.1 hparts).length_eq
  have hlen' := (mapM_eq_ok_iff.1 hparts').length_eq
  refine ⟨_, b', range' b₄.currentTaskId lefts.length,
    range' b₁.currentTaskId tasks.length, hplan, ?_, ?_⟩
  · intro id hid hid'
    have hle' : b₃.currentTaskId ≤ b₄.currentTaskId := hbefore.taskId
    rw [mem_range'_1] at hid hid'
    omega
  · exact ⟨by simpa using hlen', by simpa using hlen, _, _, task, _, b₂, rfl,
      mapM_genIdentColResult hparts', mapM_genIdentColResult hparts,
      fun t ht => (mem_newTasks ht).2.2.2.1, hdeps⟩

omit [LinearOrder V] in
lemma build_eq_rowIdJoin {joinUseHashMapCache useJoinPerfectHashing : Bool} {numInputCols : Nat}
    {logical : LogicalWindow V} (h : build joinUseHashMapCache useJoinPerfectHashing numInputCols
      logical = .ok (.rowIdJoin window join)) :
    join = rowIdJoin numInputCols joinUseHashMapCache useJoinPerfectHashing ∧
      window.identCols = [.columnReference numInputCols] := by
  unfold build at h
  split at h
  · cases h
  split at h
  · split_ifs at h
    cases Except.ok.inj h
  · obtain ⟨rfl, rfl⟩ := (LoweredWindow.rowIdJoin.injEq ..).to_iff.1 (Except.ok.inj h)
    exact ⟨rfl, rfl⟩
  · cases h

/-- A window with an order whose plan was serialized and deserialized returns the rows that it
returns as it was built, each row of the input with its value, if and only if the input has no rows
(and the window function and the join are ones that the engine has). -/
theorem runRowIdPlan_roundTrip_perm_iff {joinUseHashMapCache useJoinPerfectHashing : Bool}
    {logical : LogicalWindow V} (hbuild : build joinUseHashMapCache useJoinPerfectHashing
      input.types.length logical = .ok (.rowIdJoin window join))
    (hcolumns : HasColumns input.types window)
    (hsize : ∀ t ∈ input.parts, t.rows.length ≤ maxSizeType)
    {genIdentId windowId joinId next : Nat} {child : PhysicalRelation}
    (hids : genIdentId ≠ windowId)
    (hcache : ∀ id ∈ [genIdentId, windowId, joinId], b.tasksCache id = none)
    (hbuilt : ChildDelivers results ctx input b (rowIdPlan genIdentId windowId joinId child))
    {results' : Task → Except Failure (Table V)} {b' : Builder} (hb' : Sound b')
    (hcache' : ∀ id, next ≤ id → b'.tasksCache id = none)
    (hshipped : ChildDelivers results' ctx input b'
      (roundTrip (rowIdPlan genIdentId windowId joinId child) next)) :
    (∃ built shipped : List (Table V),
      runRowIdPlan J window join results ctx (rowIdPlan genIdentId windowId joinId child) b =
        .ok (built.map .table) ∧ runRowIdPlan J window join results' ctx
        (roundTrip (rowIdPlan genIdentId windowId joinId child) next) b' =
        .ok (shipped.map .table) ∧
      (built.flatMap (·.rows)).Perm (orderedWindowRows J window input.whole) ∧
      (shipped.flatMap (·.rows)).Perm (built.flatMap (·.rows))) ↔
    (joinUseHashMapCache = false → useJoinPerfectHashing = false) ∧
      checkWindow J.ordinal window input.whole.typeOf = .ok () ∧ input.whole.rows = [] := by
  obtain ⟨rfl, hident⟩ := build_eq_rowIdJoin hbuild
  have hsize' : ∀ t ∈ input.parts, t.rows.length ≤ 2 ^ 32 :=
    fun t ht => (hsize t ht).trans (by decide)
  obtain ⟨joins, b₁, ids, hplan, hnodup, hjoins⟩ := rowIdTasks_rowIdPlan hids
    (hcache genIdentId (by simp)) (hcache windowId (by simp)) (hcache joinId (by simp)) hbuilt
  obtain ⟨joins', b₂, lefts, rights, hplan', hdisjoint, hjoins'⟩ :=
    rowIdTasks_roundTrip hb' hcache' hshipped
  constructor
  · rintro ⟨built, shipped, hbuiltRun, hshippedRun, hbuiltRows, hshippedRows⟩
    obtain ⟨hperfect, hcheck⟩ := hjoins.checkWindow_of_run hplan hcolumns hbuiltRun
    refine ⟨hperfect, hcheck, ?_⟩
    obtain ⟨tables, htables, hperm⟩ := hjoins'.run_eq_ok hplan' hcolumns hident hperfect hcheck
    obtain rfl := tables_eq_of_eq_ok hshippedRun htables
    rw [inner_idRows_eq_nil hdisjoint hsize'] at hperm
    have hlength := (hbuiltRows.symm.trans (hshippedRows.symm.trans hperm)).length_eq
    rw [orderedWindowRows, length_map] at hlength
    exact length_eq_zero_iff.1 hlength
  · rintro ⟨hperfect, hcheck, hrows⟩
    obtain ⟨built, hbuiltRun, hbuiltRows⟩ := hjoins.run_eq_ok hplan hcolumns hident hperfect hcheck
    obtain ⟨shipped, hshippedRun, hshippedRows⟩ :=
      hjoins'.run_eq_ok hplan' hcolumns hident hperfect hcheck
    rw [inner_idRows_self hjoins.length_ids hnodup hsize'] at hbuiltRows
    rw [inner_idRows_eq_nil hdisjoint hsize'] at hshippedRows
    have hempty : orderedWindowRows J window input.whole = [] := by
      rw [orderedWindowRows, hrows, map_nil]
    refine ⟨built, shipped, hbuiltRun, hshippedRun, hbuiltRows, hshippedRows.trans ?_⟩
    rw [hempty] at hbuiltRows
    exact hbuiltRows.symm

/-! ### A table with a row -/

def CudfWindows.integers : CudfWindows Int where
  toCudfJoins := .nestedLoops .integers fun _ _ _ => true
  ofUInt64 := Int.ofNat
  ofUInt64_injective _ _ := Int.ofNat.inj
  sort _ t := t
  sort_types _ _ := rfl
  sort_rows _ _ := .rfl
  windowValue _ cells cell :=
    some (1 + cells.countP fun c => decide (c.partition = cell.partition) &&
    decide ((c.order.headD none).getD 0 < (cell.order.headD none).getD 0))
  windowValue_perm _ _ _ h := by
    funext cell
    rw [h.countP_eq]
  windowType _ _ := .int32
  ordinal _ := 0

def rankWindow : LogicalWindow Int where
  aggrFunc := .rank
  arguments := []
  partitionBy := []
  orderBy := [.columnReference 0]
  orderDirs := [.ascending]
  windowLowerBound := .unbounded
  windowUpperBound := .unbounded

def rankWindowRelation : PhysicalWindow Int where
  aggrFunc := .rank
  identCols := [.columnReference 1]
  arguments := []
  partitionBy := []
  orderBy := [.columnReference 0]
  orderDirs := [.ascending]
  windowLowerBound := .unbounded
  windowUpperBound := .unbounded

def integerColumn (rows : List (Row Int)) (h : ∀ r ∈ rows, r.length = 1) : Table Int where
  types := [.int64]
  rows := rows
  length_row := h
  rows_of_no_columns := nofun

def rankPlan : PhysicalRelation := rowIdPlan 1 2 3 (.read 0 "t")

section Rank

variable (t : Table Int)

lemma exists_generate_read (b : Builder) (id : Nat) (hid : b.tasksCache id = none) :
    ∃ tasks b', generateTasks onePartition (.read id "t") b = .ok (tasks, b') ∧
      tasks.mapM (fun _ => (.ok t : Except Failure (Table Int))) = .ok (single t).parts := by
  refine ⟨[.mk b.currentTaskId b.currentStageId .read [] []],
    (b.skip 1).updateCache id [.mk b.currentTaskId b.currentStageId .read [] []], ?_, rfl⟩
  rw [generateTasks, cached, hid]
  rfl

lemma childDelivers_rankPlan :
    ChildDelivers (fun _ => .ok t) onePartition (single t) .initial rankPlan := by
  obtain ⟨tasks, b₁, hch, hparts⟩ := exists_generate_read t .initial 0 rfl
  refine ⟨⟨tasks, b₁, hch, hparts⟩, fun tasks' b' h hnone => ?_⟩
  have hwindow : Builder.initial.tasksCache 2 = none := rfl
  have hgen : Builder.initial.tasksCache 1 = none := rfl
  obtain ⟨task, b₂, b₃, hr, -, -, hcache⟩ := generateTasks_window hwindow hgen hch
  cases Except.ok.inj (h.symm.trans hr)
  rw [hcache] at hnone
  simp at hnone

lemma childDelivers_roundTrip :
    ChildDelivers (fun _ => .ok t) onePartition (single t) .initial (roundTrip rankPlan 0) := by
  refine ⟨exists_generate_read t _ _ rfl, fun tasks b' h _ => ?_⟩
  exact exists_generate_read t _ _ (generate_keepsCache _ h 0 (by decide))

def runRank : Except Failure (List (TaskResult Int)) :=
  runRowIdPlan .integers rankWindowRelation (rowIdJoin 1 false false) (fun _ => .ok t) onePartition
    rankPlan .initial

/-- The plan of the rank after it was sent. -/
def runShippedRank : Except Failure (List (TaskResult Int)) :=
  runRowIdPlan .integers rankWindowRelation (rowIdJoin 1 false false) (fun _ => .ok t) onePartition
    (roundTrip rankPlan 0) .initial

end Rank

lemma hasColumns_rankWindow : HasColumns [.int64] rankWindowRelation := by
  unfold HasColumns
  decide

lemma build_rankWindow : build false false 1 rankWindow =
    .ok (.rowIdJoin rankWindowRelation (rowIdJoin 1 false false)) := rfl

theorem runRowIdPlan_roundTrip_perm_no_rows : ∃ built shipped : List (Table Int),
      runRank (integerColumn [] nofun) = .ok (built.map .table) ∧
      runShippedRank (integerColumn [] nofun) = .ok (shipped.map .table) ∧
      (built.flatMap (·.rows)).Perm (orderedWindowRows .integers rankWindowRelation
        (single (integerColumn [] nofun)).whole) ∧
      (shipped.flatMap (·.rows)).Perm (built.flatMap (·.rows)) := by
  have hsize : ∀ t ∈ (single (integerColumn [] nofun)).parts, t.rows.length ≤ maxSizeType := by
    decide
  exact (runRowIdPlan_roundTrip_perm_iff build_rankWindow hasColumns_rankWindow hsize
    (by decide) (fun _ _ => rfl) (childDelivers_rankPlan _) sound_initial (fun _ _ => rfl)
    (childDelivers_roundTrip _)).2 ⟨fun _ => rfl, rfl, rfl⟩

def resultRows : Except Failure (List (TaskResult Int)) → List (Row Int)
  | .ok results => results.flatMap fun
    | .table t => t.rows
    | .positions _ => []
  | .error _ => []

lemma resultRows_tables (tables : List (Table Int)) :
    resultRows (.ok (tables.map .table)) = tables.flatMap (·.rows) := by
  rw [resultRows, flatMap_map]

/-- The only row has a rank, and is lost. -/
theorem not_runRowIdPlan_roundTrip_perm_one_row : build false false 1 rankWindow =
      .ok (.rowIdJoin rankWindowRelation (rowIdJoin 1 false false)) ∧
    resultRows (runRank (integerColumn [[some 7]] (by decide))) = [[some 7, some 1]] ∧
    ¬ ∃ built shipped : List (Table Int),
      runRank (integerColumn [[some 7]] (by decide)) = .ok (built.map .table) ∧
      runShippedRank (integerColumn [[some 7]] (by decide)) = .ok (shipped.map .table) ∧
      (built.flatMap (·.rows)).Perm (orderedWindowRows .integers rankWindowRelation
        (single (integerColumn [[some 7]] (by decide))).whole) ∧
      (shipped.flatMap (·.rows)).Perm (built.flatMap (·.rows)) := by
  have hbuiltRows : resultRows (runRank (integerColumn [[some 7]] (by decide))) =
      [[some 7, some 1]] := rfl
  have hshippedRows : resultRows (runShippedRank (integerColumn [[some 7]] (by decide))) = [] := rfl
  refine ⟨build_rankWindow, hbuiltRows, ?_⟩
  rintro ⟨built, shipped, hbuilt, hshipped, -, hperm⟩
  rw [hbuilt, resultRows_tables] at hbuiltRows
  rw [hshipped, resultRows_tables] at hshippedRows
  rw [hbuiltRows, hshippedRows] at hperm
  exact absurd hperm.length_eq (by decide)

end Gqe.Window
