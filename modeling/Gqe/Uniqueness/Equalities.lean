import Gqe.Lib.EqualityClosure
import Gqe.Uniqueness.Properties

/-!
# Equalities of a join condition

Two partners of a row satisfy one disjunct of the join condition each. They are the same row if the
equalities of the two disjuncts force them to agree on a key, and else they can be different.
-/

namespace Gqe.Uniqueness

open UniqueKey EqualityClosure Relation List Expr

variable {V : Type*}

/-! ### Equalities of a condition -/

/-- The column equalities of the disjuncts of a condition. What is not a column equality is left
out. -/
def disjuncts : Expr V → List (List (Nat × Nat))
  | .binaryOp .equal (.columnReference c₀) (.columnReference c₁) => [[(c₀, c₁)]]
  | .binaryOp op lhs rhs =>
    match op with
    | .logicalAnd | .nullLogicalAnd => (disjuncts lhs).flatMap fun d => (disjuncts rhs).map (d ++ ·)
    | .logicalOr | .nullLogicalOr => disjuncts lhs ++ disjuncts rhs
    | _ => [[]]
  | _ => [[]]

/-- Every disjunct of the condition has an equality with the property. -/
def EveryDisjunct (P : Nat × Nat → Prop) (condition : Expr V) : Prop :=
  ∀ d ∈ disjuncts condition, ∃ e ∈ d, P e

section EveryDisjunct

variable {P : Nat × Nat → Prop} {lhs rhs : Expr V} {op : BinaryOp}

/-- If one disjunct of each operand lacks the property, so does the conjunction of these two. -/
lemma everyDisjunct_and (hop : op = .logicalAnd ∨ op = .nullLogicalAnd) :
    EveryDisjunct P (.binaryOp op lhs rhs) ↔ EveryDisjunct P lhs ∨ EveryDisjunct P rhs := by
  have hdisjs : disjuncts (.binaryOp op lhs rhs) =
      (disjuncts lhs).flatMap fun d => (disjuncts rhs).map (d ++ ·) := by
    rcases hop with rfl | rfl <;> rfl
  simp only [EveryDisjunct, hdisjs, mem_flatMap, mem_map]
  constructor
  · intro h
    by_contra hnot
    push Not at hnot
    obtain ⟨⟨d, hd, hdP⟩, d', hd', hdP'⟩ := hnot
    obtain ⟨e, he, heP⟩ := h _ ⟨d, hd, d', hd', rfl⟩
    exact (mem_append.1 he).elim (hdP e · heP) (hdP' e · heP)
  · rintro (h | h) _ ⟨d, hd, d', hd', rfl⟩
    · obtain ⟨e, he, heP⟩ := h d hd
      exact ⟨e, mem_append_left _ he, heP⟩
    · obtain ⟨e, he, heP⟩ := h d' hd'
      exact ⟨e, mem_append_right _ he, heP⟩

lemma everyDisjunct_or (hop : op = .logicalOr ∨ op = .nullLogicalOr) :
    EveryDisjunct P (.binaryOp op lhs rhs) ↔ EveryDisjunct P lhs ∧ EveryDisjunct P rhs := by
  have hdisjs : disjuncts (.binaryOp op lhs rhs) = disjuncts lhs ++ disjuncts rhs := by
    rcases hop with rfl | rfl <;> rfl
  simp only [EveryDisjunct, hdisjs, forall_mem_append]

/-- The flags of `check_join_condition_for_propagation`. -/
lemma checkJoinCondition_iff (uniqueInputCols : List Nat) (n : Nat) (condition : Expr V) :
    ((checkJoinConditionForPropagation uniqueInputCols n condition).1 ↔ EveryDisjunct (fun e =>
      (e.1 ∈ uniqueInputCols ∧ n ≤ e.1) ∨ (e.2 ∈ uniqueInputCols ∧ n ≤ e.2)) condition) ∧
    ((checkJoinConditionForPropagation uniqueInputCols n condition).2 ↔ EveryDisjunct (fun e =>
      (e.1 ∈ uniqueInputCols ∧ e.1 < n) ∨ (e.2 ∈ uniqueInputCols ∧ e.2 < n)) condition) := by
  fun_induction checkJoinConditionForPropagation uniqueInputCols n condition with
  | case1 c₀ c₁ => simp [EveryDisjunct, disjuncts]
  | case2 lhs rhs l r _ ihl ihr =>
    simp only [everyDisjunct_and (.inl rfl), Bool.or_eq_true, ihl, ihr, l, r, and_self]
  | case3 lhs rhs l r _ ihl ihr =>
    simp only [everyDisjunct_and (.inr rfl), Bool.or_eq_true, ihl, ihr, l, r, and_self]
  | case4 lhs rhs l r _ ihl ihr =>
    simp only [everyDisjunct_or (.inl rfl), Bool.and_eq_true, ihl, ihr, l, r, and_self]
  | case5 lhs rhs l r _ ihl ihr =>
    simp only [everyDisjunct_or (.inr rfl), Bool.and_eq_true, ihl, ihr, l, r, and_self]
  | case6 | case7 =>
    unfold EveryDisjunct disjuncts
    split <;> simp_all

/-- `collect_equijoin_pairs` has the equalities of the two inputs that all disjuncts share. -/
lemma mem_collectEquijoinPairs {n : Nat} {condition : Expr V} {pair : Nat × Nat} :
    pair ∈ collectEquijoinPairs n condition ↔ EveryDisjunct (fun e =>
      decide (e.1 < n) ≠ decide (e.2 < n) ∧ pair = (min e.1 e.2, max e.1 e.2)) condition := by
  fun_induction collectEquijoinPairs n condition with
  | case1 c₀ c₁ h | case2 c₀ c₁ h =>
    simp only [ne_eq, decide_eq_decide] at h
    simp [EveryDisjunct, disjuncts, h]
  | case3 lhs rhs _ ihl ihr =>
    rw [Finset.mem_union, ihl, ihr, everyDisjunct_and (.inl rfl)]
  | case4 lhs rhs _ ihl ihr =>
    rw [Finset.mem_union, ihl, ihr, everyDisjunct_and (.inr rfl)]
  | case5 lhs rhs _ ihl ihr =>
    rw [Finset.mem_inter, ihl, ihr, everyDisjunct_or (.inl rfl)]
  | case6 lhs rhs _ ihl ihr =>
    rw [Finset.mem_inter, ihl, ihr, everyDisjunct_or (.inr rfl)]
  | case7 | case8 =>
    unfold EveryDisjunct disjuncts
    split <;> simp_all

/-- A pair that is collected is an equality of every disjunct, of a column of each input. -/
lemma mem_disjunct_of_mem_pairs {n i j : Nat} {condition : Expr V}
    (hpair : (i, j) ∈ collectEquijoinPairs n condition) {d : List (Nat × Nat)}
    (hd : d ∈ disjuncts condition) : i < n ∧ n ≤ j ∧ ((i, j) ∈ d ∨ (j, i) ∈ d) := by
  obtain ⟨⟨c₀, c₁⟩, he, hside, heq⟩ := mem_collectEquijoinPairs.1 hpair d hd
  obtain ⟨rfl, rfl⟩ := Prod.mk.inj heq
  simp only [ne_eq, decide_eq_decide] at hside
  rcases Nat.lt_or_ge c₀ c₁ with hlt | hge
  · rw [Nat.min_eq_left hlt.le, Nat.max_eq_right hlt.le]
    exact ⟨by omega, by omega, .inl he⟩
  · rw [Nat.min_eq_right hge, Nat.max_eq_left hge]
    exact ⟨by omega, by omega, .inr he⟩

end EveryDisjunct

/-- A condition built from column equalities by conjunction and disjunction. -/
inductive IsFormula (atom : Nat → Nat → Prop) : Expr V → Prop where
  | equal {c₀ c₁} : atom c₀ c₁ →
      IsFormula atom (.binaryOp .equal (.columnReference c₀) (.columnReference c₁))
  | and {op lhs rhs} : op = .logicalAnd ∨ op = .nullLogicalAnd → IsFormula atom lhs →
      IsFormula atom rhs → IsFormula atom (.binaryOp op lhs rhs)
  | or {op lhs rhs} : op = .logicalOr ∨ op = .nullLogicalOr → IsFormula atom lhs →
      IsFormula atom rhs → IsFormula atom (.binaryOp op lhs rhs)

variable {condition : Expr V}

variable {atom : Nat → Nat → Prop}

lemma IsFormula.columns {P : Nat → Prop} (hatom : ∀ c₀ c₁, atom c₀ c₁ → P c₀ ∧ P c₁)
    (h : IsFormula atom condition) : ∀ c ∈ condition.columns, P c := by
  induction h with
  | equal h => simpa using hatom _ _ h
  | and _ _ _ ihl ihr | or _ _ _ ihl ihr =>
    simp only [Expr.columns, mem_append]
    rintro c (hc | hc)
    · exact ihl c hc
    · exact ihr c hc

lemma IsFormula.exists_atom (h : IsFormula atom condition) : ∃ c₀ c₁, atom c₀ c₁ := by
  induction h with
  | equal h => exact ⟨_, _, h⟩
  | and _ _ _ ih _ | or _ _ _ ih _ => exact ih

def Satisfies (r : Row V) (d : List (Nat × Nat)) : Prop :=
  ∀ e ∈ d, ValuesAgree .unequal (r.col e.1) (r.col e.2)

section
variable [LinearOrder V] (C : Cudf V) (τ : Nat → DataType)

/-- A row on which a condition is TRUE satisfies one of its disjuncts. -/
lemma exists_satisfies {condition : Expr V} {r : Row V} (h : condition.IsTrue C τ r) :
    ∃ d ∈ disjuncts condition, Satisfies r d := by
  have hand : ∀ {lhs rhs : Expr V},
      (∃ d ∈ disjuncts lhs, Satisfies r d) → (∃ d ∈ disjuncts rhs, Satisfies r d) →
      ∃ d ∈ (disjuncts lhs).flatMap fun d => (disjuncts rhs).map (d ++ ·), Satisfies r d := by
    rintro lhs rhs ⟨d, hd, hrd⟩ ⟨d', hd', hrd'⟩
    refine ⟨d ++ d', mem_flatMap.2 ⟨d, hd, mem_map.2 ⟨d', hd', rfl⟩⟩, fun e he => ?_⟩
    exact (mem_append.1 he).elim (hrd e) (hrd' e)
  have hor : ∀ {lhs rhs : Expr V},
      (∃ d ∈ disjuncts lhs, Satisfies r d) ∨ (∃ d ∈ disjuncts rhs, Satisfies r d) →
      ∃ d ∈ disjuncts lhs ++ disjuncts rhs, Satisfies r d := by
    rintro lhs rhs (⟨d, hd, hrd⟩ | ⟨d, hd, hrd⟩)
    · exact ⟨d, mem_append_left _ hd, hrd⟩
    · exact ⟨d, mem_append_right _ hd, hrd⟩
  fun_induction disjuncts condition with
  | case1 c₀ c₁ =>
    refine ⟨_, mem_singleton_self _, fun e he => ?_⟩
    obtain rfl := mem_singleton.1 he
    obtain ⟨heq, hne⟩ := (isTrue_equal ..).1 h
    exact ⟨heq, fun _ => hne⟩
  | case2 lhs rhs _ ihr ihl =>
    obtain ⟨hl, hr⟩ := (isTrue_logicalAnd ..).1 h
    exact hand (ihl hl) (ihr hr)
  | case3 lhs rhs _ ihr ihl =>
    obtain ⟨hl, hr⟩ := (isTrue_nullLogicalAnd ..).1 h
    exact hand (ihl hl) (ihr hr)
  | case4 lhs rhs _ ihl ihr => exact hor (h.logicalOr.imp ihl ihr)
  | case5 lhs rhs _ ihl ihr => exact hor (((isTrue_nullLogicalOr ..).1 h).imp ihl ihr)
  | case6 | case7 => exact ⟨[], by simp, by simp [Satisfies]⟩

/-- On a row without NULLs, a formula is TRUE if one of its disjuncts is satisfied. -/
lemma toBool_eval_formula {condition : Expr V} (hcond : IsFormula atom condition) {r : Row V}
    (hr : ∀ c ∈ condition.columns, r.col c ≠ none) : ∃ b, C.toBool (condition.eval C τ r) = some b ∧
      ((∃ d ∈ disjuncts condition, ∀ e ∈ d, r.col e.1 = r.col e.2) → b = true) := by
  induction hcond with
  | @equal c₀ c₁ _ =>
    obtain ⟨v, hv⟩ := Option.ne_none_iff_exists'.1 (hr c₀ (by simp))
    obtain ⟨w, hw⟩ := Option.ne_none_iff_exists'.1 (hr c₁ (by simp))
    refine ⟨decide (v = w), by simp [Cudf.binaryOp, hv, hw], ?_⟩
    simp [disjuncts, hv, hw]
  | @and op lhs rhs hop _ _ ihl ihr =>
    obtain ⟨a, ha, hla⟩ := ihl fun c hc => hr c (by simp [hc])
    obtain ⟨b, hb, hlb⟩ := ihr fun c hc => hr c (by simp [hc])
    refine ⟨a && b, ?_, ?_⟩
    · rcases hop with rfl | rfl <;> simp only [eval, Cudf.binaryOp, ha, hb] <;>
        cases a <;> cases b <;> simp
    · have hdisjs : disjuncts (.binaryOp op lhs rhs) =
          (disjuncts lhs).flatMap fun d => (disjuncts rhs).map (d ++ ·) := by
        rcases hop with rfl | rfl <;> rfl
      rw [hdisjs]
      rintro ⟨d, hd, hrd⟩
      obtain ⟨d₁, hd₁, hd⟩ := mem_flatMap.1 hd
      obtain ⟨d₂, hd₂, rfl⟩ := mem_map.1 hd
      rw [hla ⟨d₁, hd₁, fun e he => hrd e (by simp [he])⟩,
        hlb ⟨d₂, hd₂, fun e he => hrd e (by simp [he])⟩]
      rfl
  | @or op lhs rhs hop _ _ ihl ihr =>
    obtain ⟨a, ha, hla⟩ := ihl fun c hc => hr c (by simp [hc])
    obtain ⟨b, hb, hlb⟩ := ihr fun c hc => hr c (by simp [hc])
    refine ⟨a || b, ?_, ?_⟩
    · rcases hop with rfl | rfl <;> simp only [eval, Cudf.binaryOp, ha, hb] <;>
        cases a <;> cases b <;> simp
    · have hdisjs : disjuncts (.binaryOp op lhs rhs) = disjuncts lhs ++ disjuncts rhs := by
        rcases hop with rfl | rfl <;> rfl
      rw [hdisjs]
      rintro ⟨d, hd, hrd⟩
      rcases mem_append.1 hd with hd | hd
      · simp [hla ⟨d, hd, hrd⟩]
      · simp [hlb ⟨d, hd, hrd⟩]

end

/-! ### Two partners of a row -/

section
variable (shared : Nat → Bool)

/-- A column of the second of two joined rows, as a variable. Variables are columns of the first row
or the second; the columns of the shared input are the same in both. -/
@[simp] def second (c : Nat) : Nat × Bool := (c, !shared c)

/-- The equations of a disjunct for the first row and one for the second. -/
def Equation (d d' : List (Nat × Nat)) (x y : Nat × Bool) : Prop :=
  (∃ e ∈ d, x = (e.1, false) ∧ y = (e.2, false)) ∨
    ∃ e ∈ d', x = second shared e.1 ∧ y = second shared e.2

/-- Any two disjuncts force two rows with the same shared input to agree on one of the keys. -/
def ForcesKey (condition : Expr V) (keys : List (List Nat)) : Prop :=
  ∀ d ∈ disjuncts condition, ∀ d' ∈ disjuncts condition, ∃ key ∈ keys, ∀ c ∈ key,
    EqvGen (Equation shared d d') (c, false) (second shared c)

variable {shared}

lemma ne_none_of_eqvGen {X : Type*} {E : X → X → Prop} {v : X → Option V}
    (hv : ∀ x y, E x y → ValuesAgree .unequal (v x) (v y)) {x y : X} (h : EqvGen E x y) :
    x = y ∨ ValuesAgree .unequal (v x) (v y) := by
  induction h with
  | rel x y h => exact .inr (hv x y h)
  | refl x => exact .inl rfl
  | symm x y _ ih => exact ih.imp Eq.symm ValuesAgree.symm
  | trans x y z _ _ ih ih' =>
    rcases ih with rfl | ih
    · exact ih'
    · rcases ih' with rfl | ih'
      · exact .inr ih
      · exact .inr (ih.trans ih')

variable [LinearOrder V] (C : Cudf V) (τ : Nat → DataType)

variable {condition : Expr V} {keys : List (List Nat)}

/-- Two rows that satisfy the condition and have the same shared input agree on a key. -/
lemma ForcesKey.agree (h : ForcesKey shared condition keys)
    (hkeys : ∀ key ∈ keys, ∀ c ∈ key, shared c = false) {w w' : Row V}
    (hshared : ∀ c, shared c → w.col c = w'.col c) (hw : condition.IsTrue C τ w)
    (hw' : condition.IsTrue C τ w') : ∃ key ∈ keys, Agree .unequal key w w' := by
  obtain ⟨d, hd, hwd⟩ := exists_satisfies C τ hw
  obtain ⟨d', hd', hwd'⟩ := exists_satisfies C τ hw'
  obtain ⟨key, hkey, hforced⟩ := h d hd d' hd'
  let v : Nat × Bool → Option V := fun x => if x.2 then w'.col x.1 else w.col x.1
  have hsnd : ∀ c, v (second shared c) = w'.col c := by
    intro c
    by_cases hc : shared c = true
    · simp [v, hshared c hc]
    · simp [v, hc]
  refine ⟨key, hkey, fun c hc => ?_⟩
  have hv : ∀ x y, Equation shared d d' x y → ValuesAgree .unequal (v x) (v y) := by
    rintro x y (⟨e, he, rfl, rfl⟩ | ⟨e, he, rfl, rfl⟩)
    · exact hwd e he
    · rw [hsnd, hsnd]
      exact hwd' e he
  have hc' := ne_none_of_eqvGen hv (hforced c hc)
  rw [hsnd] at hc'
  refine hc'.resolve_left fun heq => ?_
  simp [hkeys key hkey c hc] at heq

omit [LinearOrder V] in
lemma mem_columns_of_disjuncts {d : List (Nat × Nat)} (hd : d ∈ disjuncts condition)
    {e : Nat × Nat} (he : e ∈ d) : e.1 ∈ condition.columns ∧ e.2 ∈ condition.columns := by
  fun_induction disjuncts condition generalizing d with
  | case1 c₀ c₁ =>
    obtain rfl := mem_singleton.1 hd
    obtain rfl := mem_singleton.1 he
    simp
  | case2 lhs rhs _ ihr ihl | case3 lhs rhs _ ihr ihl =>
    obtain ⟨d₁, hd₁, hd⟩ := mem_flatMap.1 hd
    obtain ⟨d₂, hd₂, rfl⟩ := mem_map.1 hd
    rcases mem_append.1 he with he | he
    · simp [ihl hd₁ he]
    · simp [ihr hd₂ he]
  | case4 lhs rhs _ ihl ihr | case5 lhs rhs _ ihl ihr =>
    rcases mem_append.1 hd with hd | hd
    · simp [ihl hd he]
    · simp [ihr hd he]
  | case6 | case7 => simp_all

/-- If no key is forced, there are two different partners. -/
lemma exists_rows_of_not_forcesKey [Infinite V] (hcond : IsFormula atom condition)
    (h : ¬ ForcesKey shared condition keys) {n : Nat} (hcols : ∀ c ∈ condition.columns, c < n)
    (hkeys : ∀ key ∈ keys, ∀ c ∈ key, c < n) :
    ∃ w w' : Row V, w.length = n ∧ w'.length = n ∧ (∀ c, shared c → w.col c = w'.col c) ∧
      condition.IsTrue C τ w ∧ condition.IsTrue C τ w' ∧ (∀ c < n, w.col c ≠ none) ∧
      ∀ key ∈ keys, ∃ c ∈ key, w.col c ≠ w'.col c := by
  simp only [ForcesKey, not_forall, not_exists, not_and] at h
  obtain ⟨d, hd, d', hd', hforced⟩ := h
  obtain ⟨v, hv⟩ := exists_assignment (V := V) (Equation shared d d')
  let row (f : Nat → Nat × Bool) : Row V := (List.range n).map fun c => some (v (f c))
  have hrow : ∀ f, ∀ c < n, (row f).col c = some (v (f c)) := fun f c hc => by
    simp [row, Row.col, hc]
  -- a row satisfies the disjunct whose equations hold of its variables
  have htrue : ∀ f, ∀ d ∈ disjuncts condition, (∀ e ∈ d, v (f e.1) = v (f e.2)) →
      condition.IsTrue C τ (row f) := by
    intro f d hd hf
    obtain ⟨b, hb, htrue⟩ := toBool_eval_formula C τ hcond (r := row f) fun c hc => by
      simp [hrow f c (hcols c hc)]
    rw [Expr.IsTrue, hb, htrue ⟨d, hd, fun e he => ?_⟩]
    obtain ⟨h₁, h₂⟩ := mem_columns_of_disjuncts hd he
    rw [hrow f _ (hcols _ h₁), hrow f _ (hcols _ h₂), hf e he]
  refine ⟨row (·, false), row (second shared), by simp [row], by simp [row], fun c hc => ?_,
    htrue _ d hd fun e he => ?_, htrue _ d' hd' fun e he => ?_, fun c hc => ?_, fun key hkey => ?_⟩
  · by_cases hlt : c < n
    · simp [hrow _ c hlt, hc]
    · simp [row, Row.col, hlt]
  · exact (hv _ _).2 (.rel _ _ (.inl ⟨e, he, rfl, rfl⟩))
  · exact (hv _ _).2 (.rel _ _ (.inr ⟨e, he, rfl, rfl⟩))
  · simp [hrow _ c hc]
  · obtain ⟨c, hc, hne⟩ := hforced key hkey
    refine ⟨c, hc, fun heq => hne ((hv _ _).1 ?_)⟩
    simpa [hrow _ c (hkeys key hkey c hc)] using heq

end

/-! ### Conditions without disjunction -/

mutual

/-- No operator of the expression is a disjunction. -/
def orFree : Expr V → Bool
  | .columnReference _ | .literal _ _ _ => true
  | .isNull e | .cast e _ | .unaryOp _ e | .scalarFunction _ e => orFree e
  | .ifThenElse c t e => orFree c && orFree t && orFree e
  | .binaryOp op l r => op ≠ .logicalOr && op ≠ .nullLogicalOr && orFree l && orFree r
  | .inPredicate es _ => orFreeList es

def orFreeList : List (Expr V) → Bool
  | [] => true
  | e :: es => orFree e && orFreeList es

end

/-- The column equalities among the conjuncts of a condition. -/
@[simp] def conjuncts : Expr V → List (Nat × Nat)
  | .binaryOp .equal (.columnReference c₀) (.columnReference c₁) => [(c₀, c₁)]
  | .binaryOp op lhs rhs =>
    match op with
    | .logicalAnd | .nullLogicalAnd => conjuncts lhs ++ conjuncts rhs
    | _ => []
  | _ => []

/-- A chain of equalities leads from the column to a column of the shared input. -/
def Linked (shared : Nat → Bool) (condition : Expr V) (c : Nat) : Prop :=
  ∃ s, shared s ∧ EqvGen (fun x y => (x, y) ∈ conjuncts condition) c s

lemma disjuncts_of_orFree (h : orFree condition) : disjuncts condition = [conjuncts condition] := by
  fun_induction disjuncts condition with
  | case1 => rfl
  | case2 lhs rhs _ ihr ihl | case3 lhs rhs _ ihr ihl =>
    simp only [orFree, Bool.and_eq_true] at h
    rw [ihl h.1.2, ihr h.2]
    rfl
  | case4 | case5 => simp [orFree] at h
  | case6 | case7 =>
    unfold conjuncts
    split <;> simp_all

section
variable {shared : Nat → Bool}

variable {condition : Expr V} {keys : List (List Nat)}

/-- What a disjunct forces of the second row and the first goes through the shared input. -/
lemma linked_of_eqvGen {x y : Nat × Bool}
    (h : EqvGen (Equation shared (conjuncts condition) (conjuncts condition)) x y) :
    (x.2 = y.2 ∧ EqvGen (fun x y => (x, y) ∈ conjuncts condition) x.1 y.1) ∨
      (Linked shared condition x.1 ∧ Linked shared condition y.1) := by
  have hlink : ∀ {c c'}, EqvGen (fun x y => (x, y) ∈ conjuncts condition) c c' →
      Linked shared condition c' → Linked shared condition c := by
    rintro c c' hc ⟨s, hs, hcs⟩
    exact ⟨s, hs, hc.trans _ _ _ hcs⟩
  induction h with
  | rel x y h =>
    rcases h with ⟨e, he, rfl, rfl⟩ | ⟨e, he, rfl, rfl⟩
    · exact .inl ⟨rfl, .rel _ _ he⟩
    · by_cases h₁ : shared e.1 = true
      · exact .inr ⟨⟨e.1, h₁, .refl _⟩, ⟨e.1, h₁, .symm _ _ (.rel _ _ he)⟩⟩
      · by_cases h₂ : shared e.2 = true
        · exact .inr ⟨⟨e.2, h₂, .rel _ _ he⟩, ⟨e.2, h₂, .refl _⟩⟩
        · exact .inl ⟨by simp [h₁, h₂], .rel _ _ he⟩
  | refl x => exact .inl ⟨rfl, .refl _⟩
  | symm x y _ ih => exact ih.imp (fun h => ⟨h.1.symm, .symm _ _ h.2⟩) And.symm
  | trans x y z _ _ ih ih' =>
    rcases ih with ⟨hxy, hxy'⟩ | ⟨hx, hy⟩
    · rcases ih' with ⟨hyz, hyz'⟩ | ⟨hy, hz⟩
      · exact .inl ⟨hxy.trans hyz, .trans _ _ _ hxy' hyz'⟩
      · exact .inr ⟨hlink hxy' hy, hz⟩
    · rcases ih' with ⟨_, hyz'⟩ | ⟨_, hz⟩
      · exact .inr ⟨hx, hlink (.symm _ _ hyz') hy⟩
      · exact .inr ⟨hx, hz⟩

lemma eqvGen_of_linked {c : Nat} (h : Linked shared condition c) :
    EqvGen (Equation shared (conjuncts condition) (conjuncts condition)) (c, false)
      (second shared c) := by
  obtain ⟨s, hs, hcs⟩ := h
  have hfst : EqvGen (Equation shared (conjuncts condition) (conjuncts condition))
      (c, false) (s, false) :=
    eqvGen_map (·, false) (fun x y hxy => .inl ⟨(x, y), hxy, rfl, rfl⟩) hcs
  have hsnd : EqvGen (Equation shared (conjuncts condition) (conjuncts condition))
      (second shared c) (second shared s) :=
    eqvGen_map (second shared) (fun x y hxy => .inr ⟨(x, y), hxy, rfl, rfl⟩) hcs
  have hs : second shared s = (s, false) := by simp [hs]
  exact hfst.trans _ _ _ (hs ▸ hsnd.symm)

/-- Without disjunction, a key is forced if all its columns are linked to the shared input. -/
lemma forcesKey_iff_linked (h : orFree condition)
    (hkeys : ∀ key ∈ keys, ∀ c ∈ key, shared c = false) :
    ForcesKey shared condition keys ↔ ∃ key ∈ keys, ∀ c ∈ key, Linked shared condition c := by
  simp only [ForcesKey, disjuncts_of_orFree h, mem_singleton, forall_eq]
  refine exists_congr fun key => and_congr_right fun hkey => forall₂_congr fun c hc => ?_
  refine ⟨fun h => ?_, eqvGen_of_linked⟩
  refine ((linked_of_eqvGen h).resolve_left fun heq => ?_).1
  simpa [hkeys key hkey c hc] using heq.1

end

end Gqe.Uniqueness
