import Gqe.ProjectionPushdown.Correctness

/-!
# Names of columns

`column_name_assignment` (`optimizer/rules/column_name_assignment.cpp`) visits a plan after its
children and gives every relation a list of names, derived from those of its children. The names are
compared with the columns the relation has.
-/

namespace Gqe.Optimizer

open List

open ProjectionPushdown (ForallPlans)

variable {V : Type*} {α : Type*}

/-! ### Functions of a plan by its operators -/

mutual

/-- Combine the values of the children at every relation. -/
def foldPlan (f : RelOp V → List α → α) : Plan V → α
  | .node op children _ => f op (foldPlans f children)

def foldPlans (f : RelOp V → List α → α) : List (Plan V) → List α
  | [] => []
  | p :: ps => foldPlan f p :: foldPlans f ps

end

lemma foldPlans_eq_map (f : RelOp V → List α → α) (ps : List (Plan V)) :
    foldPlans f ps = ps.map (foldPlan f) := by
  induction ps with
  | nil => rfl
  | cons p ps ih => rw [foldPlans, ih, map_cons]

@[simp] lemma foldPlan_node (f : RelOp V → List α → α) (op : RelOp V) (cs ss : List (Plan V)) :
    foldPlan f (.node op cs ss) = f op (cs.map (foldPlan f)) := by
  rw [foldPlan, foldPlans_eq_map]

/-- `relation::num_columns`, from those of the children. -/
def columnCount (op : RelOp V) (children : List Nat) : Nat :=
  match op, children with
  | .read _ _ types _, _ | .write _ _ types, _ | .userDefined _ types, _ => types.length
  | .filter _ p, _ | .join _ _ p, _ => p.length
  | .project es, _ => es.length
  | .aggregate keys measures, _ => keys.length + measures.length
  | .sort .., n :: _ | .fetch .., n :: _ | .set _, n :: _ => n
  | .window .., n :: _ => n + 1
  | _, [] => 0

def numColumns : Plan V → Nat := foldPlan columnCount

@[simp] lemma numColumns_node (op : RelOp V) (cs ss : List (Plan V)) :
    numColumns (.node op cs ss) = columnCount op (cs.map numColumns) := foldPlan_node ..

/-! ### The rule -/

/-- A name by index, with a fallback beyond the end. -/
def nameAt (fallback : String) (names : List String) (i : Nat) : String :=
  names.getD i (fallback ++ toString i)

def getAggregationName : AggregationKind → String
  | .sum => "sum"
  | .mean => "avg"
  | .countValid | .countAll => "count"
  | .min => "min"
  | .max => "max"
  | .variance => "var"
  | .std => "std"
  | .median => "median"
  | _ => "agg"

section

/- `get_clean_expression_string`, of an expression whose references have been given names. -/
variable (clean : Expr V → List String → String)

/-- The name of a key or an argument of an aggregation. `update_column_references` has given the
reference its name, which is not used if it is empty. -/
def operandName (fallback : String) (names : List String) : Expr V → String
  | .columnReference i =>
    let columnName := nameAt "col_default_" names i
    if columnName.isEmpty then nameAt fallback names i else columnName
  | e => clean e names

/-- What the visitor knows of a relation: its names, and the input names of an aggregation above it,
which looks through filters. -/
structure Assigned where
  names : List String
  aggregateInput : List String

/-- The output names of a relation (`apply_visitor::visit`). -/
def outputNames (op : RelOp V) (children : List Assigned) : List String :=
  match op, children with
  | .read _ names _ _, _ => names
  | .project es, [c] => es.map fun
    | .columnReference i => nameAt "col_default_" c.names i
    | e => clean e c.names
  | .aggregate keys measures, [c] =>
    keys.map (operandName clean "groupby_key_" c.aggregateInput) ++ measures.map fun (kind, e) =>
      getAggregationName kind ++ "(" ++ operandName clean "col_default_" c.aggregateInput e ++ ")"
  | .join _ _ p, [l, r] => p.map (nameAt "join_col_" (l.names ++ r.names))
  | .filter .., [c] | .sort .., [c] | .window .., [c] | .fetch .., [c] | .set _, [c, _] => c.names
  | .write _ _ types, _ | .userDefined _ types, _ =>
    (range types.length).map fun i => "col_default_" ++ toString i
  | _, _ => []

def assignRelation (op : RelOp V) (children : List Assigned) : Assigned where
  names := outputNames clean op children
  aggregateInput :=
    match op, children with
    | .filter _ p, [c] => p.map (nameAt "col_default_" c.names)
    | op, children => outputNames clean op children

def assign : Plan V → Assigned := foldPlan (assignRelation clean)

/-- The names `column_name_assignment` gives to the columns of a relation. -/
def relationColumnNames (p : Plan V) : List String := (assign clean p).names

lemma relationColumnNames_node (op : RelOp V) (cs ss : List (Plan V)) :
    relationColumnNames clean (.node op cs ss) = outputNames clean op (cs.map (assign clean)) := by
  rw [relationColumnNames, assign, foldPlan_node]
  rfl

/-! ### Columns and their names -/

/-- The number of children, and of the columns of a read or a write relation. -/
def HasSchema : Plan V → Prop
  | .node (.read _ names types _) _ _ => names.length = types.length
  | .node (.join ..) children _ | .node (.set _) children _ => ∃ l r, children = [l, r]
  | .node (.write _ _ types) children _ => ∃ c, children = [c] ∧ types.length = numColumns c
  | .node (.userDefined ..) _ _ => True
  | .node _ children _ => ∃ c, children = [c]

/-- Column `i` of the relation is column `j` of its child `c`. -/
def PassesThrough (op : RelOp V) (children : List (Plan V)) (i : Nat) (c : Plan V) (j : Nat) :
    Prop :=
  j < numColumns c ∧
  match op, children with
  | .filter _ p, [child] => c = child ∧ p[i]? = some j
  | .project es, [child] => c = child ∧ es[i]? = some (.columnReference j)
  | .aggregate keys _, [child] => c = child ∧ keys[i]? = some (.columnReference j)
  | .join _ _ p, [l, r] => c = l ∧ p[i]? = some j ∨ c = r ∧ p[i]? = some (numColumns l + j)
  | .sort .., [child] | .fetch .., [child] | .window .., [child] | .write .., [child]
  | .set _, [child, _] => c = child ∧ i = j
  | _, _ => False

def CountsMatch (p : Plan V) : Prop := (relationColumnNames clean p).length = numColumns p

/-- As many names as columns, and columns that are passed through keep their names. -/
def NamesMatch : Plan V → Prop
  | .node op children ss => CountsMatch clean (.node op children ss) ∧
      ∀ i c j, PassesThrough op children i c j →
        (relationColumnNames clean (.node op children ss))[i]? = (relationColumnNames clean c)[j]?

end

/-- The relation is no window function; if it is a filter, its projection and the number of columns
of its input are related by `P`, and if it writes a table, `W` holds of the number of columns. -/
def Keeps (P : List Nat → Nat → Prop) (W : Nat → Prop) : Plan V → Prop
  | .node (.filter _ p) children _ => ∀ c ∈ children, P p (numColumns c)
  | .node (.write _ _ types) _ _ => W types.length
  | .node (.window ..) _ _ => False
  | _ => True

variable {clean : Expr V → List String → String} {op : RelOp V} {cs ss : List (Plan V)}

lemma getElem?_eq_nameAt {names : List String} {i : Nat} (h : i < names.length)
    (fallback : String) :
    names[i]? = some (nameAt fallback names i) := by
  simp [nameAt, h]

lemma getElem?_eq_operandName {names : List String} {i : Nat} (h : i < names.length)
    (fallback : String) :
    names[i]? = some (operandName clean fallback names (.columnReference i)) := by
  rw [operandName]
  split_ifs
  · exact getElem?_eq_nameAt h fallback
  · exact getElem?_eq_nameAt h _

section

variable (hsch : HasSchema (.node op cs ss))
include hsch

section

variable (hcs : ∀ c ∈ cs, CountsMatch clean c)
include hcs

lemma countsMatch_node_iff :
    CountsMatch clean (.node op cs ss) ↔
      Keeps (fun p n => p.length = n) (fun _ => True) (.node op cs ss) := by
  rw [CountsMatch, relationColumnNames_node]
  cases op <;> simp only [HasSchema] at hsch
  case read | userDefined => simp [outputNames, columnCount, Keeps, hsch]
  case write => simp [outputNames, columnCount, Keeps]
  case join | set =>
    obtain ⟨l, r, rfl⟩ := hsch
    have hl : (assign clean l).names.length = numColumns l := hcs l mem_cons_self
    simpa [outputNames, columnCount, Keeps] using hl
  all_goals
    obtain ⟨c, rfl⟩ := hsch
    have hc : (assign clean c).names.length = numColumns c := hcs c mem_cons_self
    simp [outputNames, columnCount, Keeps, eq_comm, ← hc]

/-- An aggregation above a filter that keeps all columns takes the names of the filter. -/
lemma aggregateInput_node (hkeeps : Keeps (fun p n => p = range n) (· = 0) (.node op cs ss)) :
    (assign clean (.node op cs ss)).aggregateInput =
      relationColumnNames clean (.node op cs ss) := by
  cases op
  case filter p =>
    obtain ⟨c, rfl⟩ := hsch
    have hc : (assign clean c).names.length = numColumns c := hcs c mem_cons_self
    have hp : p = range (assign clean c).names.length := hc ▸ hkeeps c mem_cons_self
    show p.map (nameAt "col_default_" (assign clean c).names) = (assign clean c).names
    rw [hp]
    exact ext_getElem (by simp) fun i _ hi => by simp [nameAt, hi]
  all_goals rfl

lemma namesMatch_node
    (hin : ∀ c ∈ cs, (assign clean c).aggregateInput = relationColumnNames clean c)
    (hkeeps : Keeps (fun p n => p = List.range n) (· = 0) (.node op cs ss)) :
    NamesMatch clean (.node op cs ss) := by
  have hcnt : Keeps (fun p n => p.length = n) (fun _ => True) (.node op cs ss) := by
    cases op
    case filter => exact fun c hc => (congrArg List.length (hkeeps c hc)).trans length_range
    case write => trivial
    all_goals exact hkeeps
  refine ⟨(countsMatch_node_iff hsch hcs).2 hcnt, ?_⟩
  rintro i c j ⟨hj, h⟩
  rw [relationColumnNames_node]
  cases op <;> simp only [HasSchema] at hsch
  case join p =>
    obtain ⟨l, r, rfl⟩ := hsch
    have hl : (relationColumnNames clean l).length = numColumns l := hcs l mem_cons_self
    have hr : (relationColumnNames clean r).length = numColumns r := hcs r (by simp)
    have hnames : ∀ k, k < numColumns l + numColumns r → p[i]? = some k →
        (p.map (nameAt "join_col_"
          (relationColumnNames clean l ++ relationColumnNames clean r)))[i]? =
          (relationColumnNames clean l ++ relationColumnNames clean r)[k]? := fun k hk hik => by
      rw [List.getElem?_map, hik, Option.map_some,
        getElem?_eq_nameAt (by rwa [length_append, hl, hr])]
    rcases h with ⟨rfl, h⟩ | ⟨rfl, h⟩
    · exact (hnames j (by omega) h).trans (List.getElem?_append_left (by omega))
    · refine (hnames _ (by omega) h).trans ?_
      rw [List.getElem?_append_right (by omega), hl, Nat.add_sub_cancel_left]
  case set =>
    obtain ⟨l, r, rfl⟩ := hsch
    obtain ⟨rfl, rfl⟩ := h
    rfl
  case read | userDefined => exact h.elim
  case write types =>
    -- without columns there is none that is passed through
    obtain ⟨child, rfl, hlen⟩ := hsch
    obtain ⟨rfl, -⟩ := h
    rw [← hlen, hkeeps] at hj
    exact absurd hj (Nat.not_lt_zero j)
  all_goals
    obtain ⟨child, rfl⟩ := hsch
    obtain ⟨rfl, h⟩ := h
    have hc : j < (relationColumnNames clean c).length := by rwa [hcs c mem_cons_self]
  case filter =>
    rw [hkeeps c mem_cons_self] at h
    obtain ⟨hi, rfl⟩ := List.getElem?_eq_some_iff.1 h
    rw [getElem_range]
    rfl
  case project =>
    simp only [map_cons, map_nil, outputNames, List.getElem?_map, h]
    exact (getElem?_eq_nameAt hc _).symm
  case aggregate keys _ =>
    have hi := (List.getElem?_eq_some_iff.1 h).1
    simp only [map_cons, map_nil, outputNames, hin c mem_cons_self]
    rw [List.getElem?_append_left (by rwa [length_map]), List.getElem?_map, h]
    exact (getElem?_eq_operandName hc _).symm
  all_goals
    subst h
    rfl

end

end

lemma of_forallPlans {P : Plan V → Prop} {p : Plan V} (h : ForallPlans P p) : P p := by
  cases h
  assumption

/-- Every relation has as many names as columns if and only if there are no window functions and
filters keep the number of columns. Columns that are passed through keep their names as well if
filters keep all columns in their order and no columns are written. -/
theorem namesMatch_of_keeps (clean : Expr V → List String → String) (p : Plan V)
    (hschema : ForallPlans HasSchema p) :
    (ForallPlans (CountsMatch clean) p ↔
      ForallPlans (Keeps (fun p n => p.length = n) fun _ => True) p) ∧
    (ForallPlans (Keeps (fun p n => p = range n) (· = 0)) p →
      ForallPlans (NamesMatch clean) p) := by
  suffices h : ForallPlans (Keeps (fun p n => p = range n) (· = 0)) p →
      ForallPlans (NamesMatch clean) p ∧
        (assign clean p).aggregateInput = relationColumnNames clean p by
    refine ⟨?_, fun hkeeps => (h hkeeps).1⟩
    clear h
    induction hschema with
    | node hnode _ _ ihcs ihss =>
      constructor <;> rintro (⟨h, hcs, hss⟩)
      · exact .node ((countsMatch_node_iff hnode fun c hc => of_forallPlans (hcs c hc)).1 h)
          (fun c hc => (ihcs c hc).1 (hcs c hc)) fun s hs => (ihss s hs).1 (hss s hs)
      · have hcounts := fun c hc => (ihcs c hc).2 (hcs c hc)
        exact .node ((countsMatch_node_iff hnode fun c hc => of_forallPlans (hcounts c hc)).2 h)
          hcounts fun s hs => (ihss s hs).2 (hss s hs)
  induction hschema with
  | node hnode _ _ ihcs ihss =>
    rintro (⟨h, hcs, hss⟩)
    have hnames := fun c hc => ihcs c hc (hcs c hc)
    have hcounts : ∀ c ∈ _, CountsMatch clean c := fun c hc => by
      have := of_forallPlans (hnames c hc).1
      cases c
      exact this.1
    exact ⟨.node (namesMatch_node hnode hcounts (fun c hc => (hnames c hc).2) h)
      (fun c hc => (hnames c hc).1) fun s hs => (ihss s hs (hss s hs)).1,
      aggregateInput_node hnode hcounts h⟩

open ProjectionPushdown (selectAll forallPlans_selectAll)

/-- `SELECT * FROM t WHERE a > 0`. -/
theorem namesMatch_selectAll : ForallPlans (NamesMatch fun _ _ => "") selectAll :=
  (namesMatch_of_keeps _ _ (forallPlans_selectAll ⟨_, rfl⟩ rfl)).2
    (forallPlans_selectAll (fun c hc => by rw [mem_singleton.1 hc]; rfl) trivial)

/-- `SELECT b FROM t WHERE a > 0`, with the projection in the filter: the column `b` is
named `a`. -/
theorem relationColumnNames_selectColumn :
    let read : Plan Int := .node (.read "t" ["a", "b"] [.int64, .int64] none) [] []
    let filter : Plan Int := .node (.filter
      (.binaryOp .greater (.columnReference 0) (.literal .int64 0 false)) [1]) [read] []
    relationColumnNames (fun _ _ => "") filter = ["a", "b"] ∧ numColumns filter = 1 ∧
      (relationColumnNames (fun _ _ => "") read)[1]? = some "b" ∧
      PassesThrough
        (.filter (.binaryOp .greater (.columnReference 0) (.literal .int64 0 false)) [1])
        [read] 0 read 1 :=
  ⟨rfl, rfl, rfl, by decide, rfl, rfl⟩

end Gqe.Optimizer
