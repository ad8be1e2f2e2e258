import Gqe.Uniqueness.Operators

/-!
# Keys of aggregations

The grouping keys together identify a group. A single grouping expression does so if it determines
the others on the rows of the input; the rule expects this of expressions it takes for injective
functions of a unique column.
-/

namespace Gqe.Uniqueness

open UniqueKey Aggregation Grouping List RelationProperties Expr

variable {V : Type*}

/-! ### Recorded keys -/

lemma mem_flatten_of_mapM {α β : Type*} {f : α → Option (List β)} {l : List α} {ys : List (List β)}
    (h : l.mapM f = some ys) {b : β} : b ∈ ys.flatten ↔ ∃ a ∈ l, ∃ y, f a = some y ∧ b ∈ y := by
  induction l generalizing ys with
  | nil =>
    obtain rfl : [] = ys := by simpa using h
    simp
  | cons a l ih =>
    rw [mapM_cons] at h
    obtain ⟨y, hy, h⟩ := Option.bind_eq_some_iff.1 h
    obtain ⟨ys, hys, h⟩ := Option.bind_eq_some_iff.1 h
    obtain rfl : y :: ys = _ := Option.some.inj h
    simp [ih hys, hy]

/-- The columns found to be unique are those of the accepted expressions. -/
lemma mem_uniqueExpressions {unique : List Nat} {τ : Nat → DataType} {keys : List (Expr V)}
    {found : List Nat} (h : uniqueExpressions unique τ keys = some found) {i : Nat} :
    i ∈ found ↔ ∃ e, keys[i]? = some e ∧ isUniqueExpression unique τ e = some true := by
  obtain ⟨ys, hys, h⟩ := Option.bind_eq_some_iff.1 h
  obtain rfl : ys.flatten = found := Option.some.inj h
  rw [mem_flatten_of_mapM hys]
  simp only [Prod.exists, mem_zipIdx_iff_getElem?, Option.map_eq_some_iff]
  constructor
  · rintro ⟨e, idx, he, y, ⟨b, hb, rfl⟩, hi⟩
    cases b with
    | false => simp at hi
    | true =>
      obtain rfl : i = idx := by simpa using hi
      exact ⟨e, he, hb⟩
  · rintro ⟨e, he, htrue⟩
    exact ⟨e, i, he, [i], ⟨true, htrue, rfl⟩, by simp⟩

/-! ### Injective expressions -/

lemma ValuesAgree.of_map {W : Type*} {nulls : NullEquality} {f : V → W} {a b : Option V}
    (hf : ∀ x ∈ a, ∀ y ∈ b, f x = f y → x = y) (h : ValuesAgree nulls (a.map f) (b.map f)) :
    ValuesAgree nulls a b := by
  obtain ⟨heq, hnull⟩ := h
  refine ⟨?_, fun hn => by simpa using hnull hn⟩
  cases a <;> cases b <;> simp_all

section
variable [LinearOrder V] {C : Cudf V} {nulls : NullEquality} {t : Table V}

/-- An expression determines the grouping keys of a row of the table. -/
def Determines (nulls : NullEquality) (C : Cudf V) (t : Table V) (keys : List (Expr V))
    (e : Expr V) : Prop :=
  ∀ r ∈ t.rows, ∀ s ∈ t.rows, ValuesAgree nulls (e.eval C t.typeOf r) (e.eval C t.typeOf s) →
      keyOf C t.typeOf keys r = keyOf C t.typeOf keys s

/-- Additions and subtractions of integers wrap around: on the values of a type, they are injective
in each operand, and their results are `INT64`. The complement of an integer, which is no Boolean,
is injective and keeps the type. -/
structure IntegralArith (C : Cudf V) (HasType : DataType → V → Prop) : Prop where
  left_injective : ∀ {op τl τr x x' y}, op = .add ∨ op = .sub → τl.isIntegral → τr.isIntegral →
    HasType τl x → HasType τl x' → C.arith op (some τl) (some τr) x y =
      C.arith op (some τl) (some τr) x' y → x = x'
  right_injective : ∀ {op τl τr x y y'}, op = .add ∨ op = .sub → τl.isIntegral → τr.isIntegral →
    HasType τr y → HasType τr y' → C.arith op (some τl) (some τr) x y =
      C.arith op (some τl) (some τr) x y' → y = y'
  hasType_arith : ∀ {op τl τr} x y, op = .add ∨ op = .sub → τl.isIntegral → τr.isIntegral →
    HasType .int64 (C.arith op (some τl) (some τr) x y)
  invert_injective : ∀ {type x x'}, type.isIntegral → type ≠ .bool8 → HasType type x →
    HasType type x' → C.unary .bitInvert (some type) x = C.unary .bitInvert (some type) x' → x = x'
  hasType_invert : ∀ {type x}, type.isIntegral → type ≠ .bool8 → HasType type x →
    HasType type (C.unary .bitInvert (some type) x)

/-- The values of the table are of the types of their columns. -/
def WellTyped (HasType : DataType → V → Prop) (t : Table V) : Prop :=
  ∀ r ∈ t.rows, ∀ i, ∀ v ∈ r.col i, HasType (t.typeOf i) v

/-- A unique column to which integers are added, which is subtracted from them, or whose bits are
inverted, over the types `τ` of the columns. -/
inductive IsChain (uniqueInputCols : List Nat) (τ : Nat → DataType) : Expr V → Prop
  | column {i : Nat} : i ∈ uniqueInputCols → IsChain uniqueInputCols τ (.columnReference i)
  | literalLeft {op : BinaryOp} {type type' : DataType} {v : V} {e : Expr V} :
    op = .add ∨ op = .sub → type.isIntegral → e.dataType τ = some type' → type'.isIntegral →
      IsChain uniqueInputCols τ e →
      IsChain uniqueInputCols τ (.binaryOp op (.literal type v false) e)
  | literalRight {op : BinaryOp} {type type' : DataType} {v : V} {e : Expr V} :
    op = .add ∨ op = .sub → type.isIntegral → e.dataType τ = some type' → type'.isIntegral →
      IsChain uniqueInputCols τ e →
      IsChain uniqueInputCols τ (.binaryOp op e (.literal type v false))
  | complement {type : DataType} {e : Expr V} : e.dataType τ = some type → type.isIntegral →
      type ≠ .bool8 → IsChain uniqueInputCols τ e →
      IsChain uniqueInputCols τ (.unaryOp .bitInvert e)

section
variable {HasType : DataType → V → Prop} (hC : IntegralArith C HasType) {unique : List Nat}
  {e : Expr V} (he : IsChain unique t.typeOf e)
include hC he

lemma IsChain.hasType {r : Row V} (hr : ∀ i, ∀ v ∈ r.col i, HasType (t.typeOf i) v)
    {type : DataType} (htype : e.dataType t.typeOf = some type) :
    ∀ v ∈ e.eval C t.typeOf r, HasType type v := by
  have harith : ∀ {op : BinaryOp} {l r : DataType}, op = .add ∨ op = .sub → l.isIntegral →
      r.isIntegral → op.dataType (some l) (some r) = some .int64 := by
    rintro op l r (rfl | rfl) hl hr <;> simp [BinaryOp.dataType, arithmeticOutputType, hl, hr]
  induction he generalizing type with
  | @column i _ =>
    obtain rfl : t.typeOf i = type := by simpa using htype
    exact hr i
  | complement htype' hint hbool _ ih =>
    obtain rfl : _ = type := Option.some.inj (htype'.symm.trans (by simpa [dataType] using htype))
    simp only [eval, Cudf.unaryOp, htype']
    intro v hv
    obtain ⟨x, hx, rfl⟩ := Option.map_eq_some_iff.1 hv
    exact hC.hasType_invert hint hbool (ih htype' x hx)
  | literalLeft hop hl htype' hr' _ _ | literalRight hop hl htype' hr' _ _ =>
    simp only [dataType, htype', harith hop hl hr', harith hop hr' hl, Option.some.injEq] at htype
    subst htype
    intro v hv
    rw [eval_arith C _ _ _ _ hop, Option.mem_def, Option.map₂_eq_some_iff] at hv
    obtain ⟨x, y, -, -, rfl⟩ := hv
    simp only [htype']
    exact hC.hasType_arith x y hop ‹_› ‹_›

/-- Rows with the same value of a chain have the same value in its column. -/
lemma IsChain.exists_column (nulls : NullEquality) (ht : WellTyped HasType t) :
    ∃ i ∈ unique, ∀ r ∈ t.rows, ∀ s ∈ t.rows,
      ValuesAgree nulls (e.eval C t.typeOf r) (e.eval C t.typeOf s) →
        ValuesAgree nulls (r.col i) (s.col i) := by
  induction he with
  | @column i hi => exact ⟨i, hi, fun r _ s _ h => h⟩
  | @literalLeft op type type' v e hop hl htype' hr' he ih =>
    obtain ⟨i, hi, ih⟩ := ih
    refine ⟨i, hi, fun r hr s hs h => ih r hr s hs ?_⟩
    rw [eval_arith C _ _ _ _ hop, eval_arith C _ _ _ _ hop] at h
    simp only [htype'] at h
    exact h.of_map fun x hx y hy => hC.right_injective hop hl hr'
      (he.hasType hC (ht r hr) htype' x hx) (he.hasType hC (ht s hs) htype' y hy)
  | @literalRight op type type' v e hop hl htype' hr' he ih =>
    obtain ⟨i, hi, ih⟩ := ih
    refine ⟨i, hi, fun r hr s hs h => ih r hr s hs ?_⟩
    rw [eval_arith C _ _ _ _ hop, eval_arith C _ _ _ _ hop] at h
    simp only [htype', eval, Bool.false_eq_true, if_false, Option.map₂_coe_right] at h
    exact h.of_map fun x hx y hy => hC.left_injective hop hr' hl
      (he.hasType hC (ht r hr) htype' x hx) (he.hasType hC (ht s hs) htype' y hy)
  | @complement type e htype' hint hbool he ih =>
    obtain ⟨i, hi, ih⟩ := ih
    refine ⟨i, hi, fun r hr s hs h => ih r hr s hs ?_⟩
    simp only [eval, Cudf.unaryOp, htype', reduceCtorEq, if_false] at h
    exact h.of_map fun x hx y hy => hC.invert_injective hint hbool
      (he.hasType hC (ht r hr) htype' x hx) (he.hasType hC (ht s hs) htype' y hy)

/-- A chain over a key of the input identifies its rows, and so their groups. -/
lemma IsChain.determines (ht : WellTyped HasType t) (huniq : ∀ i ∈ unique, IsKey nulls t [i])
    (keys : List (Expr V)) : Determines nulls C t keys e := by
  obtain ⟨i, hi, hcol⟩ := he.exists_column hC nulls ht
  intro r hr s hs h
  have hagree : Agree nulls [i] r s := by simpa [Agree] using hcol r hr s hs h
  rw [(huniq i hi).unique.eq_of_agree Agree.symm hr hs hagree]

end

end

/-! ### Shifted columns -/

/-- An expression without the literals that are added to it or subtracted, or from which it is
subtracted, with the types of these literals and whether they are NULL. -/
def shiftOf : Expr V → Expr V × List (DataType × Bool)
  | .binaryOp op lhs rhs =>
    if op = .add ∨ op = .sub then
      match lhs, rhs with
      | .literal type _ null, rhs => ((shiftOf rhs).1, (type, null) :: (shiftOf rhs).2)
      | lhs, .literal type _ null => ((shiftOf lhs).1, (type, null) :: (shiftOf lhs).2)
      | lhs, rhs => (.binaryOp op lhs rhs, [])
    else (.binaryOp op lhs rhs, [])
  | e => (e, [])

/-- The expression has an integral type over the types `τ` of the columns. -/
def IsIntegralOver (τ : Nat → DataType) (e : Expr V) : Prop :=
  ∃ type, e.dataType τ = some type ∧ type.isIntegral

/-- A unique column, or the complement of any expression. -/
inductive IsUniqueBase (uniqueInputCols : List Nat) : Expr V → Prop
  | column {i : Nat} : i ∈ uniqueInputCols → IsUniqueBase uniqueInputCols (.columnReference i)
  | complement {e : Expr V} : IsUniqueBase uniqueInputCols (.unaryOp .bitInvert e)

/-- If a grouping expression is a unique column or a complement, shifted by integral literals if it
is integral itself over the types `τ'` of the output, then it is one over the types `τ` of the
input as well, and no literal is NULL unless NULLs differ. -/
def IsSafe (nulls : NullEquality) (uniqueInputCols : List Nat) (τ τ' : Nat → DataType)
    (e : Expr V) : Prop :=
  IsUniqueBase uniqueInputCols (shiftOf e).1 → (∀ l ∈ (shiftOf e).2, l.1.isIntegral) →
    ((shiftOf e).2 ≠ [] → IsIntegralOver τ' (shiftOf e).1) →
      IsChain uniqueInputCols τ (shiftOf e).1 ∧
      ((shiftOf e).2 ≠ [] → IsIntegralOver τ (shiftOf e).1) ∧
      (nulls = .equal → ∀ l ∈ (shiftOf e).2, l.2 = false)

section Shift

variable {unique : List Nat} {τ τ' : Nat → DataType} {e : Expr V}

/-- A sum or a difference in which one operand is a literal. -/
inductive IsShiftOf (op : BinaryOp) (type : DataType) (null : Bool) (e : Expr V) : Expr V → Prop
  | left {v : V} : IsShiftOf op type null e (.binaryOp op (.literal type v null) e)
  | right {v : V} : (∀ type v null, e ≠ .literal type v null) →
      IsShiftOf op type null e (.binaryOp op e (.literal type v null))

lemma IsShiftOf.shiftOf_eq {op : BinaryOp} {type : DataType} {null : Bool} {e' : Expr V}
    (hop : op = .add ∨ op = .sub) (h : IsShiftOf op type null e e') :
    shiftOf e' = ((shiftOf e).1, (type, null) :: (shiftOf e).2) := by
  cases h with
  | left => rw [shiftOf, if_pos hop]
  | right hne => rw [shiftOf, if_pos hop]; exact hne

lemma shiftOf_cases (e : Expr V) : shiftOf e = (e, []) ∨
      ∃ op type null e', (op = .add ∨ op = .sub) ∧ IsShiftOf op type null e' e := by
  cases e with
  | binaryOp op lhs rhs =>
    unfold shiftOf
    split_ifs with hop
    · split
      · exact .inr ⟨op, _, _, _, hop, .left⟩
      next hne => exact .inr ⟨op, _, _, _, hop, .right hne⟩
      · exact .inl rfl
    · exact .inl rfl
  | _ => exact .inl rfl

lemma shiftOf_eq_self (h : (shiftOf e).2 = []) : (shiftOf e).1 = e := by
  rcases shiftOf_cases e with heq | ⟨op, type, null, e', hop, hshift⟩
  · rw [heq]
  · simp [hshift.shiftOf_eq hop] at h

lemma IsShiftOf.sizeOf_lt {op : BinaryOp} {type : DataType} {null : Bool} {e' : Expr V}
    (h : IsShiftOf op type null e e') : sizeOf e < sizeOf e' := by
  cases h <;> simp only [binaryOp.sizeOf_spec] <;> omega

lemma ite_eq_some_true {b : Bool} {x : Option Bool} :
    (if !b then pure false else x) = some true ↔ b ∧ x = some true := by
  cases b <;> simp

/-- `is_unique_expression` accepts a sum or difference for its operand that is no literal. -/
lemma IsShiftOf.accepted {op : BinaryOp} {type : DataType} {null : Bool} {e' : Expr V}
    (hop : op = .add ∨ op = .sub) (hshift : IsShiftOf op type null e e')
    (h : isUniqueExpression unique τ' e' = some true) :
    type.isIntegral ∧ IsIntegralOver τ' e ∧ isUniqueExpression unique τ' e = some true := by
  cases hshift with
  | left =>
    rw [isUniqueExpression, if_pos hop] at h
    obtain ⟨lhsType, hlhs, h⟩ := Option.bind_eq_some_iff.1 h
    obtain rfl := Option.some.inj hlhs
    obtain ⟨hl, h⟩ := ite_eq_some_true.1 h
    obtain ⟨rhsType, hrhs, h⟩ := Option.bind_eq_some_iff.1 h
    obtain ⟨hr, h⟩ := ite_eq_some_true.1 h
    exact ⟨hl, ⟨rhsType, hrhs, hr⟩, h⟩
  | right hne =>
    rw [isUniqueExpression.eq_3 _ _ _ _ _ _ _ hne, if_pos hop] at h
    obtain ⟨lhsType, hlhs, h⟩ := Option.bind_eq_some_iff.1 h
    obtain ⟨hl, h⟩ := ite_eq_some_true.1 h
    obtain ⟨rhsType, hrhs, h⟩ := Option.bind_eq_some_iff.1 h
    obtain rfl := Option.some.inj hrhs
    obtain ⟨hr, h⟩ := ite_eq_some_true.1 h
    exact ⟨hr, ⟨lhsType, hlhs, hl⟩, h⟩

/-- Without a literal, a sum or difference is not accepted. -/
lemma isUniqueBase_of_not_shift (hself : shiftOf e = (e, []))
    (h : isUniqueExpression unique τ' e = some true) : IsUniqueBase unique e := by
  cases e with
  | columnReference i => exact .column (of_decide_eq_true (Option.some.inj h))
  | unaryOp op e =>
    obtain rfl := of_decide_eq_true (Option.some.inj h)
    exact .complement
  | binaryOp op lhs rhs =>
    by_cases hop : op = .add ∨ op = .sub
    · have hl : ∀ type v null, lhs ≠ .literal type v null := by
        rintro type v null rfl
        simp [(IsShiftOf.left (e := rhs)).shiftOf_eq hop] at hself
      have hr : ∀ type v null, rhs ≠ .literal type v null := by
        rintro type v null rfl
        simp [(IsShiftOf.right hl).shiftOf_eq hop] at hself
      rw [isUniqueExpression.eq_4 _ _ _ _ _ hl hr, if_pos hop] at h
      obtain ⟨lhsType, hlhs, h⟩ := Option.bind_eq_some_iff.1 h
      obtain ⟨-, h⟩ := ite_eq_some_true.1 h
      obtain ⟨rhsType, hrhs, h⟩ := Option.bind_eq_some_iff.1 h
      cases (ite_eq_some_true.1 h).2
    · unfold isUniqueExpression at h
      rw [if_neg hop] at h
      cases h
  | _ => cases h

/-- What is accepted over the types of the output, without the literals. -/
lemma isUniqueBase_of_accepted (h : isUniqueExpression unique τ' e = some true) :
    IsUniqueBase unique (shiftOf e).1 ∧ (∀ l ∈ (shiftOf e).2, l.1.isIntegral) ∧
      ((shiftOf e).2 ≠ [] → IsIntegralOver τ' (shiftOf e).1) := by
  induction hn : sizeOf e using Nat.strongRecOn generalizing e with
  | ind n ih =>
    rcases shiftOf_cases e with hself | ⟨op, type, null, e', hop, hshift⟩
    · have hbase := isUniqueBase_of_not_shift hself h
      rw [hself]
      exact ⟨hbase, by simp, by simp⟩
    · obtain ⟨htype, hint, haccepted⟩ := hshift.accepted hop h
      obtain ⟨hbase, hliterals, hbaseInt⟩ := ih _ (hn ▸ hshift.sizeOf_lt) haccepted rfl
      rw [hshift.shiftOf_eq hop]
      refine ⟨hbase, by simpa [htype] using hliterals, fun _ => ?_⟩
      by_cases hnil : (shiftOf e').2 = []
      · rwa [shiftOf_eq_self hnil]
      · exact hbaseInt hnil

/-- A chain that is shifted by integers over the types of the input. -/
lemma isChain_of_shiftOf (hbase : IsChain unique τ (shiftOf e).1)
    (hliterals : ∀ l ∈ (shiftOf e).2, l.1.isIntegral ∧ l.2 = false)
    (hint : (shiftOf e).2 ≠ [] → IsIntegralOver τ (shiftOf e).1) :
    IsChain unique τ e ∧ ((shiftOf e).2 ≠ [] → IsIntegralOver τ e) := by
  induction hn : sizeOf e using Nat.strongRecOn generalizing e with
  | ind n ih =>
    rcases shiftOf_cases e with heq | ⟨op, type, null, e', hop, hshift⟩
    · rw [heq] at hbase hint ⊢
      exact ⟨hbase, hint⟩
    rw [hshift.shiftOf_eq hop] at hbase hliterals hint
    obtain ⟨⟨htype, rfl⟩, hrest⟩ := forall_mem_cons.1 hliterals
    have hint' := hint (cons_ne_nil _ _)
    obtain ⟨hchain, hint⟩ := ih _ (hn ▸ hshift.sizeOf_lt) hbase hrest (fun _ => hint') rfl
    obtain ⟨type', htype', hinteger⟩ : IsIntegralOver τ e' := by
      by_cases hnil : (shiftOf e').2 = []
      · rwa [shiftOf_eq_self hnil] at hint'
      · exact hint hnil
    have hsum : IsIntegralOver τ e := by
      refine ⟨.int64, ?_, rfl⟩
      cases hshift <;> rcases hop with rfl | rfl <;>
        simp [dataType, BinaryOp.dataType, arithmeticOutputType, htype', htype, hinteger]
    refine ⟨?_, fun _ => hsum⟩
    cases hshift with
    | left => exact .literalLeft hop htype htype' hinteger hchain
    | right => exact .literalRight hop htype htype' hinteger hchain

lemma eval_eq_none_of_null [LinearOrder V] (C : Cudf V) (r : Row V)
    (h : ∃ l ∈ (shiftOf e).2, l.2 = true) : e.eval C τ r = none := by
  induction hn : sizeOf e using Nat.strongRecOn generalizing e with
  | ind n ih =>
    rcases shiftOf_cases e with hself | ⟨op, type, null, e', hop, hshift⟩
    · simp [hself] at h
    rw [hshift.shiftOf_eq hop] at h
    simp only [mem_cons, exists_eq_or_imp] at h
    rcases h with rfl | hrest
    · cases hshift <;> rw [eval_arith C _ _ _ _ hop] <;> simp
    · have hnone := ih _ (hn ▸ hshift.sizeOf_lt) hrest rfl
      cases hshift <;> rw [eval_arith C _ _ _ _ hop] <;> simp [hnone]

/-- A safe grouping expression that is accepted determines the group. -/
lemma IsSafe.determines [LinearOrder V] {C : Cudf V} {nulls : NullEquality} {t : Table V}
    (hsafe : IsSafe nulls unique t.typeOf τ' e)
    (haccepted : isUniqueExpression unique τ' e = some true) {HasType : DataType → V → Prop}
    (hC : IntegralArith C HasType) (ht : WellTyped HasType t)
    (huniq : ∀ i ∈ unique, IsKey nulls t [i]) (keys : List (Expr V)) :
    Determines nulls C t keys e := by
  obtain ⟨hbase, hliterals, hint⟩ := isUniqueBase_of_accepted haccepted
  obtain ⟨hchain, hint, hnull⟩ := hsafe hbase hliterals hint
  by_cases hnone : ∃ l ∈ (shiftOf e).2, l.2 = true
  · -- all values are NULL, and NULLs differ
    obtain rfl : nulls = .unequal := by
      cases nulls with
      | unequal => rfl
      | equal =>
        obtain ⟨l, hl, htrue⟩ := hnone
        simp [hnull rfl l hl] at htrue
    rintro r - s - ⟨-, hne⟩
    exact absurd (eval_eq_none_of_null C r hnone) (hne rfl)
  · have hfalse : ∀ l ∈ (shiftOf e).2, l.1.isIntegral ∧ l.2 = false := fun l hl =>
      ⟨hliterals l hl, by simpa using fun htrue => hnone ⟨l, hl, htrue⟩⟩
    exact (isChain_of_shiftOf hchain hfalse hint).1.determines hC ht huniq keys

end Shift

/-! ### Groups -/

section
variable [LinearOrder V] [AddCommMonoidWithOne V] {db : Database V} {R : Reductions V} {C : Cudf V}
  {nulls : NullEquality} {keys : List (Expr V)} {measures : List (AggregationKind × Expr V)}
  {t out : Table V}

omit [AddCommMonoidWithOne V] in
@[simp] lemma length_keyOf (τ : Nat → DataType) (keys : List (Expr V)) (r : Row V) :
    (keyOf C τ keys r).length = keys.length := by
  simp [keyOf]

variable {cols : List Nat}

/-- Columns of grouping keys identify a group if rows that agree on them are in the same group. -/
lemma isUnique_groupOnce (R : Reductions V) (measures : List (AggregationKind × Expr V))
    (hkeys : keys ≠ []) {τ : Nat → DataType} {rows : List (Row V)}
    (hcols : ∀ c ∈ cols, c < keys.length) :
    IsUnique (Agree nulls cols) (groupOnce R C keys measures τ rows) ↔
      ∀ r ∈ rows, ∀ s ∈ rows, Agree nulls cols (keyOf C τ keys r) (keyOf C τ keys s) →
        keyOf C τ keys r = keyOf C τ keys s := by
  have hmem : ∀ {k}, k ∈ (rows.map (keyOf C τ keys)).dedup ↔ ∃ r ∈ rows, keyOf C τ keys r = k := by
    simp
  have hagree : ∀ {k k' : Row V} {x y : Row V}, k ∈ (rows.map (keyOf C τ keys)).dedup →
      k' ∈ (rows.map (keyOf C τ keys)).dedup →
      (Agree nulls cols (k ++ x) (k' ++ y) ↔ Agree nulls cols k k') := by
    intro k k' x y hk hk'
    obtain ⟨r, -, rfl⟩ := hmem.1 hk
    obtain ⟨s, -, rfl⟩ := hmem.1 hk'
    exact agree_append (by simpa using hcols) (by simpa using hcols)
  have hgroups : IsUnique (Agree nulls cols) (groupOnce R C keys measures τ rows) ↔
      IsUnique (Agree nulls cols) (rows.map (keyOf C τ keys)).dedup := by
    rw [groupOnce, if_neg hkeys, aggregate, IsUnique, pairwise_map]
    exact List.Pairwise.iff_of_mem fun hk hk' => not_congr (hagree hk hk')
  rw [hgroups, isUnique_iff_of_nodup Agree.symm (nodup_dedup _)]
  simp

section

variable (hkeys : keys ≠ []) (hout : Produces db R C (.aggregate keys measures) [t] out)
include hkeys hout

lemma isKey_aggregate_iff (hcols : ∀ c ∈ cols, c < keys.length) :
    IsKey nulls out cols ↔ ∀ r ∈ t.rows, ∀ s ∈ t.rows,
      Agree nulls cols (keyOf C t.typeOf keys r) (keyOf C t.typeOf keys s) →
        keyOf C t.typeOf keys r = keyOf C t.typeOf keys s := by
  have hlt : ∀ c ∈ cols, c < out.numColumns := fun c hc => by
    rw [hout.1]
    exact Nat.lt_add_right _ (hcols c hc)
  rw [← isUnique_groupOnce R measures hkeys hcols]
  exact ⟨fun h => h.unique.perm Agree.symm hout.2, fun h => ⟨hlt, h.perm Agree.symm hout.2.symm⟩⟩

/-- The grouping keys together identify a group. -/
lemma isKey_groupKeys :
    IsKey nulls out (range keys.length) :=
  (isKey_aggregate_iff hkeys hout (by simp)).2 fun r _ s _ =>
    eq_of_agree_range (length_keyOf ..) (length_keyOf ..)

end

/-- A single grouping expression identifies a group if it determines the others. -/
lemma isKey_singleton_iff (hout : Produces db R C (.aggregate keys measures) [t] out) {i : Nat}
    {e : Expr V} (he : keys[i]? = some e) : IsKey nulls out [i] ↔ Determines nulls C t keys e := by
  obtain ⟨hi, -⟩ := List.getElem?_eq_some_iff.1 he
  have hkeys : keys ≠ [] := fun h => by simp [h] at hi
  have hcol : ∀ r, Row.col (keyOf C t.typeOf keys r) i = e.eval C t.typeOf r := fun r => by
    simp [Row.col, keyOf, he]
  rw [isKey_aggregate_iff hkeys hout (by simpa using hi)]
  simp only [Agree, mem_singleton, forall_eq, hcol]
  rfl

lemma isKey_of_no_groupKeys (hout : Produces db R C (.aggregate [] measures) [t] out)
    (hcols : ∀ c ∈ cols, c < measures.length) : IsKey nulls out cols := by
  have hlt : ∀ c ∈ cols, c < out.numColumns := by simpa [hout.1] using hcols
  have hrows := hout.2
  rw [groupOnce, if_pos rfl] at hrows
  split_ifs at hrows
  · exact ⟨hlt, by rw [hrows.eq_nil]; exact .nil⟩
  · exact ⟨hlt, by rw [perm_singleton.1 hrows]; exact pairwise_singleton _ _⟩

/-! ### The rule -/

/-- The rule takes a grouping expression for unique. Its types are those of the output of the
aggregation, although it is evaluated over the input. -/
def Rule.Accepts (rule : Rule) (keys : List (Expr V)) (measures : List (AggregationKind × Expr V))
    (types : List DataType) (child : RelationProperties) (e : Expr V) : Prop :=
  ∃ outputTypes, rule.aggregateDataTypes keys measures (types.getD · .empty) = some outputTypes ∧
    isUniqueExpression child.uniqueColumns (fun i => outputTypes.getD i (rule.beyond i)) e =
      some true

variable {rule : Rule} {child : RelationProperties} {emitted : List (List Nat)}

omit [LinearOrder V] [AddCommMonoidWithOne V] in
/-- With two or more grouping keys, the rule records all of them together and each accepted one. -/
lemma emittedKeys_aggregate (hlen : 2 ≤ keys.length)
    (hemit : rule.emittedKeys (.aggregate keys measures) [(some t.types, child)] = some emitted)
    {key : List Nat} : key ∈ emitted ↔ key = range keys.length ∨
      ∃ i e, key = [i] ∧ keys[i]? = some e ∧ rule.Accepts keys measures t.types child e := by
  obtain ⟨e₀, e₁, es, rfl⟩ : ∃ e₀ e₁ es, keys = e₀ :: e₁ :: es := by
    match keys, hlen with
    | e₀ :: e₁ :: es, _ => exact ⟨e₀, e₁, es, rfl⟩
  simp only [Rule.emittedKeys, visitAggregate, Option.bind_eq_bind, Option.bind_some,
    Option.bind_eq_some_iff, Option.pure_def, Option.some.injEq] at hemit
  obtain ⟨_, ⟨outputTypes, htys, rfl⟩, found, hfound, rfl⟩ := hemit
  have hacc : ∀ e, rule.Accepts (e₀ :: e₁ :: es) measures t.types child e ↔
      isUniqueExpression child.uniqueColumns (fun i => outputTypes.getD i (rule.beyond i)) e =
        some true := fun e => by
    simp only [Rule.Accepts, htys, Option.some.injEq, exists_eq_left']
  simp only [mem_cons, mem_map, mem_uniqueExpressions hfound, hacc]
  constructor
  · rintro (h | ⟨i, ⟨e, he, hi⟩, rfl⟩)
    · exact .inl h
    · exact .inr ⟨i, e, rfl, he, hi⟩
  · rintro (h | ⟨i, e, rfl, he, hi⟩)
    · exact .inl h
    · exact .inr ⟨i, ⟨e, he, hi⟩, rfl⟩

/-- The recorded keys are keys of the output exactly if each accepted expression determines the
group. -/
lemma hold_aggregate_iff (hout : Produces db R C (.aggregate keys measures) [t] out)
    (hemit : rule.emittedKeys (.aggregate keys measures) [(some t.types, child)] = some emitted) :
    (ofKeys emitted).Hold nulls out ↔ (2 ≤ keys.length →
      ∀ e ∈ keys, rule.Accepts keys measures t.types child e → Determines nulls C t keys e) := by
  rw [hold_ofKeys]
  rcases lt_or_ge keys.length 2 with hlen | hlen
  · simp only [Nat.not_le.2 hlen, false_imp_iff, iff_true]
    intro k hk _
    match keys, hlen with
    | [], _ =>
      obtain rfl : (range measures.length).map ([·]) = emitted := Option.some.inj hemit
      obtain ⟨i, hi, rfl⟩ := mem_map.1 hk
      exact isKey_of_no_groupKeys hout (by simpa using hi)
    | [e], _ =>
      obtain rfl : [[0]] = emitted := Option.some.inj hemit
      rw [mem_singleton.1 hk]
      exact isKey_groupKeys (by simp) hout
  · simp only [hlen, true_imp_iff, emittedKeys_aggregate hlen hemit]
    have hkeys : keys ≠ [] := ne_nil_of_length_pos (by omega)
    constructor
    · intro h e he hacc
      obtain ⟨i, hi⟩ := mem_iff_getElem?.1 he
      exact (isKey_singleton_iff hout hi).1 (h [i] (.inr ⟨i, e, rfl, hi, hacc⟩) (by simp))
    · rintro h _ (rfl | ⟨i, e, rfl, he, hacc⟩) _
      · exact isKey_groupKeys hkeys hout
      · exact (isKey_singleton_iff hout he).2 (h e (mem_of_getElem? he) hacc)

/-- **Keys of aggregations.** The keys recorded on an aggregation hold if there is at most one
grouping key, or if all grouping expressions are safe between the types of the input and those of
the output, among which the rule looks up the columns of the input. -/
theorem hold_emittedKeys_aggregate {HasType : DataType → V → Prop}
    (hout : Produces db R C (.aggregate keys measures) [t] out) (hchild : child.Hold nulls t)
    (hemitted : rule.emittedKeys (.aggregate keys measures) [(some t.types, child)] = some emitted)
    (hC : IntegralArith C HasType) (ht : WellTyped HasType t)
    (hsafe : 2 ≤ keys.length → ∀ outputTypes ∈ rule.aggregateDataTypes keys measures t.typeOf,
      ∀ e ∈ keys, IsSafe nulls child.uniqueColumns t.typeOf
        (fun i => outputTypes.getD i (rule.beyond i)) e) :
    (ofKeys emitted).Hold nulls out := by
  refine (hold_aggregate_iff hout hemitted).2 fun hlen e he haccepts => ?_
  obtain ⟨outputTypes, htypes, haccepted⟩ := haccepts
  exact (hsafe hlen outputTypes htypes e he).determines haccepted hC ht
    (fun i hi => hchild [i] (mem_uniqueColumns.1 hi)) keys

end

/-! ### Integers and doubles -/

/-- The values of an integral type, from the first up to the second. -/
def integralRange : DataType → Option (Int × Int)
  | .int8 => some (-2 ^ 7, 2 ^ 7)
  | .int16 => some (-2 ^ 15, 2 ^ 15)
  | .int32 => some (-2 ^ 31, 2 ^ 31)
  | .int64 => some (-2 ^ 63, 2 ^ 63)
  | .uint8 => some (0, 2 ^ 8)
  | .uint16 => some (0, 2 ^ 16)
  | .uint32 => some (0, 2 ^ 32)
  | .uint64 => some (0, 2 ^ 64)
  | .bool8 => some (0, 2)
  | _ => none

def InRangeOf (type : DataType) (x : Int) : Prop :=
  ∀ range ∈ integralRange type, range.1 ≤ x ∧ x < range.2

def wrapInt64 (x : Int) : Int := (x + 2 ^ 63) % 2 ^ 64 - 2 ^ 63

/-- The nearest integer with 53 significant bits, the even one of two. -/
def roundToDouble (x : Int) : Int :=
  let unit : Int := 2 ^ (Nat.log2 x.natAbs - 52)
  let quotient := x / unit
  let rest := x % unit
  if 2 * rest < unit ∨ 2 * rest = unit ∧ quotient % 2 = 0 then quotient * unit
  else (quotient + 1) * unit

/-- Columns of integers, and of doubles without a fractional part. -/
def integersAndDoubles : Cudf Int :=
  { Cudf.integers with
    arith := fun op τl τr x y =>
      let exact := Cudf.integers.arith op τl τr x y
      if (τl.map (·.isIntegral)).getD false ∧ (τr.map (·.isIntegral)).getD false then
        wrapInt64 exact
      else roundToDouble exact
    unary := fun op type x =>
      match op, type.bind integralRange with
      | .bitInvert, some (low, high) => low + high - 1 - x
      | _, _ => x }

lemma integralArith_integersAndDoubles : IntegralArith integersAndDoubles InRangeOf := by
  have hrange : ∀ {type : DataType} {x x' : Int}, type.isIntegral → InRangeOf type x →
      InRangeOf type x' → x - x' < 2 ^ 64 ∧ x' - x < 2 ^ 64 := by
    intro type x x' htype hx hx'
    cases type <;> simp [DataType.isIntegral] at htype <;>
      simp [InRangeOf, integralRange] at hx hx' <;> omega
  constructor
  · rintro op τl τr x x' y (rfl | rfl) hl hr hx hx' heq <;>
    · have := hrange hl hx hx'
      simp only [integersAndDoubles, Cudf.integers, Option.map_some, Option.getD_some, hl, hr,
        and_self, if_true, wrapInt64] at heq
      omega
  · rintro op τl τr x y y' (rfl | rfl) hl hr hy hy' heq <;>
    · have := hrange hr hy hy'
      simp only [integersAndDoubles, Cudf.integers, Option.map_some, Option.getD_some, hl, hr,
        and_self, if_true, wrapInt64] at heq
      omega
  · intro op τl τr x y hop hl hr
    simp only [integersAndDoubles, Option.map_some, Option.getD_some, hl, hr, and_self, if_true,
      InRangeOf, integralRange, Option.mem_def, Option.some.injEq, forall_eq', wrapInt64]
    omega
  · intro type x x' htype _ _ _ heq
    cases type <;> simp [DataType.isIntegral] at htype <;>
      simp [integersAndDoubles, integralRange] at heq <;> omega
  · intro type x htype _ hx
    cases type <;> simp [DataType.isIntegral] at htype <;>
      simp [InRangeOf, integersAndDoubles, integralRange] at hx ⊢ <;> omega

/-- `GROUP BY c, u + 1` over a table with a unique column `u` and a column `c`. -/
def shiftedKeys : List (Expr Int) :=
  [.columnReference 1, .binaryOp .add (.columnReference 0) (.literal .int64 1 false)]

def orders : Table Int where
  types := [.int64, .int64]
  rows := [[some 1, some 7], [some 2, some 7]]
  length_row := by decide
  rows_of_no_columns := by decide

def orderGroups : Table Int where
  types := [.int64, .int64]
  rows := [[some 7, some 2], [some 7, some 3]]
  length_row := by decide
  rows_of_no_columns := by decide

theorem hold_emittedKeys_aggregate_orders : (ofKeys [[0, 1], [1]]).Hold .equal orderGroups := by
  have hout : Produces .empty .integers integersAndDoubles (.aggregate shiftedKeys []) [orders]
      orderGroups := ⟨rfl, by decide +kernel⟩
  have hchild : (ofKeys [[0]]).Hold .equal orders := by decide
  have hemitted : Rule.plain.emittedKeys (.aggregate shiftedKeys [])
      [(some orders.types, .ofKeys [[0]])] = some [[0, 1], [1]] := by decide
  have htyped : WellTyped InRangeOf orders := by
    intro r hr i v hv
    simp only [orders, mem_cons, not_mem_nil, or_false] at hr
    rcases hr with rfl | rfl <;> rcases i with _ | _ | i <;> simp [Row.col] at hv <;> subst hv <;>
      simp [InRangeOf, integralRange, orders, Table.typeOf]
  refine hold_emittedKeys_aggregate hout hchild hemitted integralArith_integersAndDoubles htyped
    fun _ outputTypes _ e he => ?_
  simp only [shiftedKeys, mem_cons, not_mem_nil, or_false] at he
  rcases he with rfl | rfl <;> intro hbase _ _
  · obtain ⟨hcolumn⟩ := hbase
    exact absurd hcolumn (by decide)
  · exact ⟨.column (by decide), fun _ => ⟨.int64, rfl, rfl⟩, fun _ => by decide⟩

/-- The unique column is of type `FLOAT64`. -/
def measurements : Table Int where
  types := [.float64, .int64]
  rows := [[some (2 ^ 53 - 1), some 1], [some (2 ^ 53), some 2]]
  length_row := by decide
  rows_of_no_columns := by decide

def measurementGroups : Table Int where
  types := [.int64, .float64]
  rows := [[some 1, some (2 ^ 53)], [some 2, some (2 ^ 53)]]
  length_row := by decide
  rows_of_no_columns := by decide

/-- The rule looks up the type of column 0 among the output types, where it is that of `c`, and
records `u + 1` as a key, but the two sums are the same double. -/
theorem shiftedDouble_breaks_key :
    Produces .empty .integers integersAndDoubles (.aggregate shiftedKeys []) [measurements]
      measurementGroups ∧ (ofKeys [[0]]).Hold .equal measurements ∧
    Rule.plain.emittedKeys (.aggregate shiftedKeys [])
      [(some measurements.types, .ofKeys [[0]])] = some [[0, 1], [1]] ∧
    [1] ∈ (ofKeys [[0, 1], [1]]).uniqueKeys ∧
    ¬ IsKey .equal measurementGroups [1] ∧ ¬ IsKey .unequal measurementGroups [1] :=
  ⟨⟨rfl, by decide +kernel⟩, by decide, by decide, by decide, by decide, by decide⟩

end Gqe.Uniqueness
