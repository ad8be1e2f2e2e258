import Mathlib.Algebra.Order.Ring.Nat
import Mathlib.Algebra.Order.BigOperators.Group.List
import Gqe.ProjectionPushdown.Properties

/-!
# Plans under projection pushdown

The rule is followed through a plan from the leaves to the root. What a relation looks like to the
relation above it, once its own project relations were pushed down, can be told from the original
plan.
-/

namespace Gqe.ProjectionPushdown

open List Plan Table Engine

variable {V : Type*}

/-! ### Filters and joins below a projection -/

/-- The root of the plan is a filter or a join. -/
def isSelection : Plan V → Bool
  | .node (.filter _ _) _ _ => true
  | .node (.join _ _ _) _ _ => true
  | _ => false

/-- A filter or a join, possibly below project relations of column references, which the rule
removes. -/
def exposesSelection : Plan V → Bool
  | .node (.filter _ _) _ _ => true
  | .node (.join _ _ _) _ _ => true
  | .node (.project es) [c] _ => isAllColRef es && exposesSelection c
  | _ => false

/-- A property holds at every relation of a plan. -/
inductive ForallPlans (P : Plan V → Prop) : Plan V → Prop
  | node {op children subqueries} : P (.node op children subqueries) →
      (∀ c ∈ children, ForallPlans P c) → (∀ s ∈ subqueries, ForallPlans P s) →
      ForallPlans P (.node op children subqueries)

lemma ForallPlans.and {P Q : Plan V → Prop} {p : Plan V} (hp : ForallPlans P p)
    (hq : ForallPlans Q p) : ForallPlans (fun r => P r ∧ Q r) p := by
  induction hp with
  | node hp _ _ ihc ihs =>
    cases hq with
    | node hq hqc hqs =>
      exact .node ⟨hp, hq⟩ (fun c hc => ihc c hc (hqc c hc)) fun s hs => ihs s hs (hqs s hs)

variable [LinearOrder V]

/-- The relation has as many children as its type asks for, and the column references of a
projection are columns of its input. -/
def IsWellFormed (E : Engine V) : Plan V → Prop
  | .node (.project es) children _ =>
    ∃ c, children = [c] ∧ ∀ e ∈ es, ∀ i ∈ e.columns, i < (c.eval E).numColumns
  | .node (.filter _ _) children _ => children.length = 1
  | .node (.join _ _ _) children _ => children.length = 2
  | _ => True

/-- A project relation without any column reference whose input the rule leaves without columns
has an input without rows. -/
def KeepsRows (E : Engine V) : Plan V → Prop
  | .node (.project es) [c] _ =>
    es ≠ [] → (∀ e ∈ es, e.columns = []) → exposesSelection c → (c.eval E).rows = []
  | _ => True

/-- A filter or join with the right number of children, for every projection. -/
structure Selection (E : Engine V) where
  withProjection : List Nat → Plan V
  types : Nat → DataType
  rows : List (Row V)
  isSelection : ∀ indices, isSelection (withProjection indices)
  eval_eq : ∀ indices, (withProjection indices).eval E = .materialize types rows indices
  pushdown_eq : ∀ es indices subqueries,
    pushdown (.node (.project es) [withProjection indices] subqueries) =
      tryPushdown es subqueries withProjection indices

def Selection.filter (E : Engine V) (c : Expr V) (child : Plan V) (ss : List (Plan V)) :
    Selection E where
  withProjection := fun p => .node (.filter c p) [child] ss
  types := (child.eval E).typeOf
  rows := (child.eval E).rows.filter fun r =>
    c.IsTrue (E.cudf (ss.map (·.eval E))) (child.eval E).typeOf r
  isSelection := fun _ => rfl
  eval_eq := fun _ => by simp [evalOp, Table.filter]
  pushdown_eq := fun _ _ _ => rfl

def Selection.join (E : Engine V) (c : Expr V) (type : JoinType) (left right : Plan V)
    (ss : List (Plan V)) : Selection E where
  withProjection := fun p => .node (.join c type p) [left, right] ss
  types := fun i => (joinTypes type (left.eval E) (right.eval E)).getD i .empty
  rows := joinRows (E.cudf (ss.map (·.eval E))) c type (left.eval E) (right.eval E)
  isSelection := fun _ => rfl
  eval_eq := fun _ => by simp [evalOp, Table.join]
  pushdown_eq := fun _ _ _ => rfl

/-! ### Pushing one projection down -/

variable {E : Engine V}

variable {es : List (Expr V)}

omit [LinearOrder V] in
lemma required_eq_nil :
    requiredIndicesFromMixedExpressions es = [] ↔ ∀ e ∈ es, e.columns = [] := by
  rw [requiredIndicesFromMixedExpressions, ← length_eq_zero_iff, Finset.length_sort,
    Finset.card_eq_zero, toFinset_eq_empty_iff, flatMap_eq_nil_iff]

variable {ss : List (Plan V)}

/-- Unless a projection without column references loses rows, pushing it down keeps the result. -/
lemma eval_tryPushdown (S : Selection E) {indices : List Nat}
    (hcols : ∀ e ∈ es, ∀ i ∈ e.columns, i < indices.length)
    (hrows : es ≠ [] → (∀ e ∈ es, e.columns = []) →
      (materialize S.types S.rows indices).rows = []) :
    (tryPushdown es ss S.withProjection indices).1.eval E =
      (node (.project es) [S.withProjection indices] ss).eval E := by
  have hold : (node (.project es) [S.withProjection indices] ss).eval E =
      (materialize S.types S.rows indices).project (E.cudf (ss.map (·.eval E))) es := by
    simp [evalOp, S.eval_eq]
  unfold tryPushdown inspectOutputExpressions
  by_cases hall : isAllColRef es
  · -- the project relation is removed
    have hlt : ∀ i ∈ requiredIndicesFromCrExpressions es, i < indices.length := by
      simpa using fun i e he hi =>
        hcols e he i hi
    simp only [hall, if_true]
    rw [hold, S.eval_eq, ← project_columnReferences _ _ _ _ _ hlt, ← eq_map_reference hall]
  · have hmem : ∀ i, i ∈ requiredIndicesFromMixedExpressions es ↔ ∃ e ∈ es, i ∈ e.columns := by
      simp [requiredIndicesFromMixedExpressions]
    simp only [hall, Bool.false_eq_true, if_false]
    split
    · rfl
    · simp only [eval_node, map_cons, S.eval_eq]
      by_cases hne : requiredIndicesFromMixedExpressions es = []
      · have hnone := required_eq_nil.1 hne
        have hes : es ≠ [] := by
          rintro rfl
          exact hall rfl
        refine project_of_no_columns _ _ hnone (hrows hes hnone) ?_
        rw [hne, getUpdatedProjectionIndices, map_nil, rows_materialize_nil]
      · exact project_rewriteProjectRelation _ _ _ (Finset.sort_nodup _ _)
          (fun e he i hi => (hmem i).2 ⟨e, he, hi⟩)
          (fun i hi => by obtain ⟨e, he, hi⟩ := (hmem i).1 hi; exact hcols e he i hi) hne

/-- A projection without column references over a selection with rows loses them. -/
lemma rows_tryPushdown (S : Selection E) {indices : List Nat} (hes : es ≠ [])
    (hnone : ∀ e ∈ es, e.columns = []) (hidxs : indices ≠ []) :
    ((tryPushdown es ss S.withProjection indices).1.eval E).rows = [] := by
  have hall : ¬ isAllColRef es := by
    intro hall
    rw [eq_map_reference hall] at hes
    simp [flatMap_eq_nil_iff.2 hnone] at hes
  have hreq := required_eq_nil.2 hnone
  simp only [tryPushdown, inspectOutputExpressions, hall, hreq, length_nil,
    length_eq_zero_iff, hidxs, Bool.false_eq_true, if_false]
  simp [evalOp, S.eval_eq, rows_project, hes]

/-! ### Whole plans -/

/-- What becomes of a relation seen from the relation above it. -/
def pushed (p : Plan V) : Plan V := (pushdown (visitRelation p).1).1

omit [LinearOrder V] in
lemma visitRelations_fst (ps : List (Plan V)) :
    (visitRelations ps).1 = ps.map fun p => (visitRelation p).1 := by
  induction ps with
  | nil => rfl
  | cons p ps ih => simp [visitRelations, ih]

omit [LinearOrder V] in
lemma visitRelation_fst (op : RelOp V) (cs ss : List (Plan V)) :
    (visitRelation (.node op cs ss)).1 =
      .node op (cs.map pushed) (ss.map fun s => (visitRelation s).1) := by
  simp [visitRelation, visitRelations_fst, pushed]

/-- The relation `p'` stands for `p`: it has the same result, and it is a filter or join exactly
if `p` exposes one. -/
structure StandsFor (E : Engine V) (p p' : Plan V) : Prop where
  eval_eq : p'.eval E = p.eval E
  isSelection_eq : isSelection p' = exposesSelection p
  selection : isSelection p' → ∃ (S : Selection E) (indices : List Nat),
    p' = S.withProjection indices

/-- Visiting a relation keeps its result if pushing down does so below it. -/
lemma eval_visitRelation {op : RelOp V} {cs ss : List (Plan V)}
    (hc : ∀ c ∈ cs, (pushed c).eval E = c.eval E)
    (hs : ∀ s ∈ ss, (visitRelation s).1.eval E = s.eval E) :
    (visitRelation (.node op cs ss)).1.eval E = (node op cs ss).eval E := by
  rw [visitRelation_fst, eval_node, eval_node, map_map, map_map]
  congr 1
  · exact map_congr_left hc
  · exact map_congr_left hs

variable {c : Plan V}

omit [LinearOrder V] in
lemma pushdown_of_not_isSelection (hc : isSelection c = false) (es : List (Expr V))
    (ss : List (Plan V)) :
    pushdown (.node (.project es) [c] ss) = (.node (.project es) [c] ss, false) := by
  obtain ⟨op, cs, ss'⟩ := c
  cases op <;> first | rfl | simp [isSelection] at hc

lemma isSelection_tryPushdown (S : Selection E) (es : List (Expr V)) (indices : List Nat)
    (ss : List (Plan V)) :
    isSelection (tryPushdown es ss S.withProjection indices).1 = isAllColRef es := by
  unfold tryPushdown inspectOutputExpressions
  by_cases hall : isAllColRef es
  · simp [hall, S.isSelection]
  · simp only [hall, Bool.false_eq_true, if_false]
    split <;> simp [isSelection]

/-- The result of a projection above a relation that was replaced. -/
lemma eval_project_congr {c' : Plan V} (hc : c'.eval E = c.eval E) {ss ss' : List (Plan V)}
    (hss : ss'.map (·.eval E) = ss.map (·.eval E)) (es : List (Expr V)) :
    (node (.project es) [c'] ss').eval E = (node (.project es) [c] ss).eval E := by
  simp [hc, hss]

lemma standsFor_project {c' : Plan V} (hc : StandsFor E c c') {ss ss' : List (Plan V)}
    (hss : ss'.map (·.eval E) = ss.map (·.eval E))
    (hwf : IsWellFormed E (.node (.project es) [c] ss))
    (hkeep : KeepsRows E (.node (.project es) [c] ss)) :
    StandsFor E (.node (.project es) [c] ss) (pushdown (.node (.project es) [c'] ss')).1 := by
  have hcols : ∀ e ∈ es, ∀ i ∈ e.columns, i < (c.eval E).numColumns := by
    obtain ⟨d, hd, hcols⟩ := hwf
    simp only [cons.injEq, and_true] at hd
    exact hd ▸ hcols
  have hexposes : exposesSelection (.node (.project es) [c] ss) =
      (isAllColRef es && isSelection c') := by
    rw [exposesSelection, hc.isSelection_eq]
  cases hsel : isSelection c' with
  | false =>
    rw [pushdown_of_not_isSelection hsel]
    refine ⟨eval_project_congr hc.eval_eq hss es, ?_, by simp [isSelection]⟩
    rw [hexposes, hsel, isSelection]
    all_goals simp
  | true =>
    obtain ⟨S, indices, rfl⟩ := hc.selection hsel
    have htab : c.eval E = .materialize S.types S.rows indices := by
      rw [← hc.eval_eq, S.eval_eq]
    rw [S.pushdown_eq]
    refine ⟨?_, ?_, ?_⟩
    · rw [eval_tryPushdown S, eval_project_congr hc.eval_eq hss]
      · simpa [htab, numColumns, materialize] using hcols
      · intro hes hnone
        rw [← htab]
        exact hkeep hes hnone (hc.isSelection_eq ▸ hsel)
    · rw [isSelection_tryPushdown, hexposes, hsel, Bool.and_true]
    · rw [isSelection_tryPushdown]
      intro hall
      exact ⟨S, getUpdatedProjectionIndices indices (requiredIndicesFromCrExpressions es), by
        simp [tryPushdown, inspectOutputExpressions, hall]⟩

lemma standsFor_node {op : RelOp V} {cs ss : List (Plan V)} (hwf : IsWellFormed E (.node op cs ss))
    (hkeep : KeepsRows E (.node op cs ss)) (hc : ∀ c ∈ cs, StandsFor E c (pushed c))
    (hs : ∀ s ∈ ss, (visitRelation s).1.eval E = s.eval E) :
    StandsFor E (.node op cs ss) (pushed (.node op cs ss)) := by
  have hvis : (visitRelation (.node op cs ss)).1.eval E = (node op cs ss).eval E :=
    eval_visitRelation (fun c h => (hc c h).eval_eq) hs
  unfold pushed
  rw [visitRelation_fst] at hvis ⊢
  cases op with
  | project es =>
    obtain ⟨c, rfl, -⟩ := id hwf
    exact standsFor_project (hc c (by simp))
      (by rw [map_map]; exact map_congr_left hs) hwf hkeep
  | filter cond p =>
    obtain ⟨c, rfl⟩ := length_eq_one_iff.1 hwf
    exact ⟨hvis, rfl, fun _ => ⟨.filter E cond (pushed c) _, p, rfl⟩⟩
  | join cond type p =>
    obtain ⟨l, r, rfl⟩ := length_eq_two.1 hwf
    exact ⟨hvis, rfl, fun _ => ⟨.join E cond type (pushed l) (pushed r) _, p, rfl⟩⟩
  | _ => exact ⟨hvis, rfl, fun h => by simp [pushdown, isSelection] at h⟩

/-- Every relation of a plan in which no projection loses rows is replaced by one that stands for
it. -/
theorem standsFor_pushed {p : Plan V}
    (h : ForallPlans (fun q => IsWellFormed E q ∧ KeepsRows E q) p) :
    StandsFor E p (pushed p) ∧ (visitRelation p).1.eval E = p.eval E := by
  induction h with
  | node h _ _ ihc ihs =>
    exact ⟨standsFor_node h.1 h.2 (fun c hc => (ihc c hc).1) fun s hs => (ihs s hs).2,
      eval_visitRelation (fun c hc => (ihc c hc).1.eval_eq) fun s hs => (ihs s hs).2⟩

/-- A projection without column references above a relation with rows changes its result. -/
lemma rows_pushed_of_not (hc : StandsFor E c (pushed c)) (hes : es ≠ [])
    (hnone : ∀ e ∈ es, e.columns = []) (hexposes : exposesSelection c)
    (hrows : (c.eval E).rows ≠ []) : ((pushed (.node (.project es) [c] ss)).eval E).rows = [] := by
  obtain ⟨S, indices, hS⟩ := hc.selection (hc.isSelection_eq ▸ hexposes)
  have hidxs : indices ≠ [] := by
    rintro rfl
    rw [← hc.eval_eq, hS, S.eval_eq] at hrows
    exact hrows rfl
  rw [pushed, visitRelation_fst, map_cons, map_nil, hS, S.pushdown_eq]
  exact rows_tryPushdown S hes hnone hidxs

/-- If no projection below the root loses rows, the rule keeps the result of a plan exactly if the
root does not lose rows either: it is not a projection without column references to an exposed
filter or join that has rows. -/
theorem sameResult_apply_iff (E : Engine V) (op : RelOp V) (children subqueries : List (Plan V))
    (hwf : ForallPlans (IsWellFormed E) (.node op children subqueries))
    (hchildren : ∀ c ∈ children, ForallPlans (KeepsRows E) c)
    (hsubqueries : ∀ s ∈ subqueries, ForallPlans (KeepsRows E) s) :
    SameResult ((apply (.node op children subqueries)).1.eval E)
        ((node op children subqueries).eval E) ↔ KeepsRows E (.node op children subqueries) := by
  cases hwf with
  | node hwf hwfc hwfs =>
    have hc := fun c h => standsFor_pushed ((hwfc c h).and (hchildren c h))
    have hs := fun s h => standsFor_pushed ((hwfs s h).and (hsubqueries s h))
    change SameResult ((pushed (.node op children subqueries)).eval E) _ ↔ _
    constructor
    · intro h
      cases op with
      | project es =>
        obtain ⟨c, rfl, -⟩ := hwf
        intro hes hnone hexposes
        by_contra hrows
        have hperm := h.2
        rw [rows_pushed_of_not (hc c (by simp)).1 hes hnone hexposes hrows,
          eval_node] at hperm
        have hnil := hperm.nil_eq
        simp only [map_cons, map_nil, evalOp, rows_project _ hes] at hnil
        exact hrows (map_eq_nil_iff.1 hnil.symm)
      | _ => trivial
    · intro hkeep
      rw [(standsFor_node hwf hkeep (fun c h => (hc c h).1) fun s h => (hs s h).2).eval_eq]
      exact ⟨rfl, .refl _⟩

/-! ### A projection to a literal -/

/-- Every table that is read consists of the row `(1, 2)`. -/
def oneRowEngine : Engine Int where
  cudf _ := .integers
  other _ _ _ :=
    { types := [.int64, .int64]
      rows := [[some 1, some 2]]
      length_row := by simp
      rows_of_no_columns := by simp }

/-- `SELECT * FROM t WHERE a > 0`. -/
def selectAll : Plan Int :=
  .node (.filter (.binaryOp .greater (.columnReference 0) (.literal .int64 0 false)) [0, 1])
    [.node (.read "t" ["a", "b"] [.int64, .int64] none) [] []] []

/-- `SELECT es FROM t WHERE a > 0`. -/
def selectWhere (es : List (Expr Int)) : Plan Int := .node (.project es) [selectAll] []

lemma forallPlans_selectAll {P : Plan Int → Prop} (hfilt : P selectAll)
    (hread : P (.node (.read "t" ["a", "b"] [.int64, .int64] none) [] [])) :
    ForallPlans P selectAll := by
  refine .node hfilt (fun c hc => ?_) (by simp)
  obtain rfl := mem_singleton.1 hc
  exact .node hread (by simp) (by simp)

lemma isWellFormed_selectAll : ForallPlans (IsWellFormed oneRowEngine) selectAll :=
  forallPlans_selectAll rfl trivial

lemma keepsRows_selectAll : ForallPlans (KeepsRows oneRowEngine) selectAll :=
  forallPlans_selectAll trivial trivial

lemma isWellFormed_selectWhere {es : List (Expr Int)} (h : ∀ e ∈ es, ∀ i ∈ e.columns, i < 2) :
    ForallPlans (IsWellFormed oneRowEngine) (selectWhere es) :=
  .node ⟨_, rfl, h⟩ (by simpa using isWellFormed_selectAll) (by simp)

/-- `SELECT 7 FROM t WHERE a > 0` has one row before the rule and none after it. -/
theorem selectLiteral_loses_row :
    ForallPlans (IsWellFormed oneRowEngine) (selectWhere [.literal .int64 7 false]) ∧
      ((selectWhere [.literal .int64 7 false]).eval oneRowEngine).rows = [[some 7]] ∧
      ((apply (selectWhere [.literal .int64 7 false])).1.eval oneRowEngine).rows = [] :=
  ⟨isWellFormed_selectWhere (by simp), rfl, rows_pushed_of_not
      (standsFor_pushed (isWellFormed_selectAll.and keepsRows_selectAll)).1
      (by simp) (by simp) rfl (by decide)⟩

/-- `SELECT b + 1 FROM t WHERE a > 0`. -/
theorem selectSum_keeps_row : SameResult ((apply (selectWhere [.binaryOp .add (.columnReference 1)
        (.literal .int64 1 false)])).1.eval oneRowEngine)
      ((selectWhere [.binaryOp .add (.columnReference 1)
        (.literal .int64 1 false)]).eval oneRowEngine) :=
  (sameResult_apply_iff oneRowEngine _ _ _ (isWellFormed_selectWhere (by simp))
    (by simpa using keepsRows_selectAll) (by simp)).2 (by simp [KeepsRows])

end Gqe.ProjectionPushdown
