import Gqe.Expression
import Gqe.Lib.Fallible

/-!
# Rewriting of expressions

The traversals with which the rules of the logical optimizer rewrite the expressions of a relation
(`optimizer/logical_optimization.cpp`): a modifier is tried on every node, before its children or
after them. A traversal is given a bound on the height of the expression; from its children down, a
modified node is traversed like any other.
-/

namespace Gqe

open Expr

variable {V : Type*}

/-! ### Children -/

def Expr.children : Expr V → List (Expr V)
  | .columnReference _ | .literal _ _ _ => []
  | .isNull e | .cast e _ | .unaryOp _ e | .scalarFunction _ e => [e]
  | .ifThenElse c t e => [c, t, e]
  | .binaryOp _ l r => [l, r]
  | .inPredicate es _ => es

def Expr.withChildren : Expr V → List (Expr V) → Expr V
  | .isNull _, [e] => .isNull e
  | .cast _ type, [e] => .cast e type
  | .unaryOp op _, [e] => .unaryOp op e
  | .scalarFunction fn _, [e] => .scalarFunction fn e
  | .ifThenElse _ _ _, [c, t, e] => .ifThenElse c t e
  | .binaryOp op _ _, [l, r] => .binaryOp op l r
  | .inPredicate _ i, es => .inPredicate es i
  | e, _ => e

mutual

@[simp] def Expr.height : Expr V → Nat
  | .columnReference _ | .literal _ _ _ => 1
  | .isNull e | .cast e _ | .unaryOp _ e | .scalarFunction _ e => e.height + 1
  | .ifThenElse c t e => max c.height (max t.height e.height) + 1
  | .binaryOp _ l r => max l.height r.height + 1
  | .inPredicate es _ => heightList es + 1

def Expr.heightList : List (Expr V) → Nat
  | [] => 0
  | e :: es => max e.height (heightList es)

end

lemma Expr.height_pos (e : Expr V) : 0 < e.height := by
  cases e <;> simp

lemma Expr.height_le_heightList {e : Expr V} {es : List (Expr V)} (h : e ∈ es) :
    e.height ≤ heightList es := by
  induction es with
  | nil => cases h
  | cons e' es ih =>
    rw [heightList]
    rcases List.mem_cons.1 h with rfl | h
    · exact Nat.le_max_left _ _
    · exact Nat.le_trans (ih h) (Nat.le_max_right _ _)

lemma Expr.height_lt_of_mem {e c : Expr V} (h : c ∈ e.children) : c.height < e.height := by
  cases e with
  | inPredicate es i => exact Nat.lt_succ_of_le (height_le_heightList h)
  | columnReference i => cases h
  | literal type value null => cases h
  | _ =>
    simp only [children] at h
    simp only [height]
    grind

lemma Expr.mem_columnsList {i : Nat} {es : List (Expr V)} :
    i ∈ columnsList es ↔ ∃ e ∈ es, i ∈ e.columns := by
  induction es with
  | nil => simp
  | cons e es ih => simp [ih]

lemma Expr.columns_subset_of_mem {e c : Expr V} (h : c ∈ e.children) {i : Nat}
    (hi : i ∈ c.columns) : i ∈ e.columns := by
  cases e with
  | inPredicate es j => exact mem_columnsList.2 ⟨c, h, hi⟩
  | columnReference i => cases h
  | literal type value null => cases h
  | _ =>
    simp only [children] at h
    simp only [columns]
    grind

lemma Expr.renameList_eq_map (g : Nat → Nat) (es : List (Expr V)) :
    renameList g es = es.map (·.rename g) := by
  induction es with
  | nil => rfl
  | cons e es ih => rw [renameList, ih, List.map_cons]

lemma Expr.withChildren_map_rename {e : Expr V} (g : Nat → Nat)
    (he : ¬∃ i, e = .columnReference i) :
    e.withChildren (e.children.map (·.rename g)) = e.rename g := by
  cases e with
  | columnReference i => exact absurd ⟨i, rfl⟩ he
  | inPredicate es i => rw [rename, renameList_eq_map]; rfl
  | _ => rfl

/-! ### Traversals -/

namespace Optimizer

/-- What ends a rule: an exception, an access beyond the end of a vector, or a traversal that goes
deeper than its bound. -/
inductive Failure where
  | runtimeError (what : String)
  | logicError (what : String)
  | outOfBounds
  | tooDeep
  deriving DecidableEq

/-- `expression_modifier_functor`. -/
abbrev Modifier (V : Type*) := Expr V → Except Failure (Option (Expr V))

/-- `_expression_rewrite_down`: a node is modified before its children. -/
def expressionRewriteDown (f : Modifier V) : Nat → Expr V → Except Failure (Expr V)
  | 0, _ => .error .tooDeep
  | bound + 1, expr => do
    let newExpr ← f expr
    let expr := newExpr.getD expr
    let children ← expr.children.mapM (expressionRewriteDown f bound)
    .ok (expr.withChildren children)

/-- `_expression_rewrite_up`: a node is modified after its children. -/
def expressionRewriteUp (f : Modifier V) : Nat → Expr V → Except Failure (Expr V)
  | 0, _ => .error .tooDeep
  | bound + 1, expr => do
    let children ← expr.children.mapM (expressionRewriteUp f bound)
    let expr := expr.withChildren children
    let newExpr ← f expr
    .ok (newExpr.getD expr)

/-- A modifier that leaves everything but column references as it is, or copies it. -/
def OnlyReferences (f : Modifier V) : Prop :=
  ∀ e, (¬∃ i, e = .columnReference i) → f e = .ok none ∨ f e = .ok (some e)

/-- Column references that are modified from the root down are renamed. -/
theorem rewriteDown_eq_rename {f : Modifier V} {g : Nat → Nat} (hf : OnlyReferences f) :
    ∀ (bound : Nat) (e : Expr V), e.height ≤ bound →
      (∀ i ∈ e.columns, f (.columnReference i) = .ok (some (.columnReference (g i)))) →
      expressionRewriteDown f bound e = .ok (e.rename g)
  | 0, e, hbound, _ => absurd hbound (Nat.not_le.2 e.height_pos)
  | bound + 1, e, hbound, hg => by
    by_cases href : ∃ i, e = .columnReference i
    · obtain ⟨i, rfl⟩ := href
      rw [expressionRewriteDown, hg i (by simp)]
      rfl
    · have hchs : e.children.mapM (expressionRewriteDown f bound) =
          .ok (e.children.map (·.rename g)) := by
        refine Fallible.mapM_eq_ok fun c hc => ?_
        refine rewriteDown_eq_rename hf bound c ?_ fun i hi => ?_
        · have := height_lt_of_mem hc
          omega
        · exact hg i (columns_subset_of_mem hc hi)
      rw [expressionRewriteDown]
      rcases hf e href with he | he <;>
      · rw [he]
        simp [hchs, withChildren_map_rename g href]

end Optimizer

end Gqe
