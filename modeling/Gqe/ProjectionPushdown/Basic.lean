import Gqe.Relation
import Mathlib.Data.Finset.Sort

/-!
# Projection pushdown

`optimizer/rules/projection_pushdown.cpp`: a project relation above a filter or a join restricts
the columns its child materializes. A project relation of column references only is removed, any
other one is kept with its column references renumbered.
-/

namespace Gqe.ProjectionPushdown

variable {V : Type*}

/-! ### Required columns -/

def isColumnReference : Expr V → Bool
  | .columnReference _ => true
  | _ => false

def isAllColRef (expressions : List (Expr V)) : Bool := expressions.all isColumnReference

/-- `required_indices_from_cr_expressions`: the columns in the order of the expressions. -/
@[simp] def requiredIndicesFromCrExpressions (expressions : List (Expr V)) : List Nat :=
  expressions.flatMap (·.columns)

/-- `required_indices_from_mixed_expressions`: the columns in ascending order. -/
def requiredIndicesFromMixedExpressions (expressions : List (Expr V)) : List Nat :=
  (expressions.flatMap (·.columns)).toFinset.sort (· ≤ ·)

/-- `inspect_output_expressions`, with the flag `all_col_ref`. -/
def inspectOutputExpressions (expressions : List (Expr V)) : List Nat × Bool :=
  if isAllColRef expressions then (requiredIndicesFromCrExpressions expressions, true)
  else (requiredIndicesFromMixedExpressions expressions, false)

@[simp] def getUpdatedProjectionIndices (oldProjectionIndices requiredCrIndices : List Nat) :
    List Nat :=
  requiredCrIndices.map (oldProjectionIndices.getD · 0)

/-- `construct_map`: new position of each required column that moves. -/
def constructMap (requiredCrIndices : List Nat) : List (Nat × Nat) :=
  requiredCrIndices.zipIdx.filter fun (idx, i) => i ≠ idx

/-- The expression modifier of `rewrite_project_relation`. -/
def renumber (requiredCrIndices : List Nat) (columnIdx : Nat) : Nat :=
  ((constructMap requiredCrIndices).lookup columnIdx).getD columnIdx

@[simp] def rewriteProjectRelation (requiredCrIndices : List Nat) (expressions : List (Expr V)) :
    List (Expr V) :=
  expressions.map (·.rename (renumber requiredCrIndices))

/-! ### The rule -/

/-- `try_pushdown` of a project relation onto a child whose projection is `projectionIndices`
and which is `child p` with the projection `p`. The flag is set if the rule was applied. -/
def tryPushdown (outputExpressions : List (Expr V)) (subqueries : List (Plan V))
    (child : List Nat → Plan V) (projectionIndices : List Nat) : Plan V × Bool :=
  let (requiredCrIndices, allColRef) := inspectOutputExpressions outputExpressions
  let updated := child (getUpdatedProjectionIndices projectionIndices requiredCrIndices)
  if allColRef then (updated, true)
  else if projectionIndices.length = requiredCrIndices.length then
    (.node (.project outputExpressions) [child projectionIndices] subqueries, false)
  else
    (.node (.project (rewriteProjectRelation requiredCrIndices outputExpressions)) [updated]
      subqueries, true)

/-- Push a project relation down if its child is a filter or a join. -/
def pushdown : Plan V → Plan V × Bool
  | .node (.project es) [.node (.filter c p) children ss] subqueries =>
    tryPushdown es subqueries (fun p => .node (.filter c p) children ss) p
  | .node (.project es) [.node (.join c type p) children ss] subqueries =>
    tryPushdown es subqueries (fun p => .node (.join c type p) children ss) p
  | plan => (plan, false)

mutual

/-- `apply_visitor::visit_relation`: visit children and subqueries first, then push down the
project relations among the children. -/
def visitRelation : Plan V → Plan V × Bool
  | .node op children subqueries =>
    let children := visitRelations children
    let subqueries := visitRelations subqueries
    let pushed := children.1.map pushdown
    (.node op (pushed.map (·.1)) subqueries.1, children.2 || subqueries.2 || pushed.any (·.2))

def visitRelations : List (Plan V) → List (Plan V) × Bool
  | []      => ([], false)
  | p :: ps =>
    let p := visitRelation p
    let ps := visitRelations ps
    (p.1 :: ps.1, p.2 || ps.2)

end

/-- `projection_pushdown::apply`; no relation looks at the root from above. -/
def apply (root : Plan V) : Plan V × Bool :=
  let visited := visitRelation root
  let pushed := pushdown visited.1
  (pushed.1, visited.2 || pushed.2)

end Gqe.ProjectionPushdown
