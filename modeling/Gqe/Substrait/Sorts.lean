import Gqe.Join.Keys
import Gqe.Lib.LexOrder
import Gqe.Substrait.Expressions

/-!
# Sorting

A Substrait sort on its way through the parser (`logical/from_substrait.cpp`) to the task that hands
the keys to cuDF (`executor/sort.cpp`). cuDF compares each key in ascending order, with NULL first
or last, and reverses the result for a descending key.
-/

namespace Gqe.Substrait

open LexOrder Join Fallible

/-! ### Parsing -/

/-- `substrait::SortField_SortDirection`. -/
inductive SortDirection where
  | unspecified | ascNullsFirst | ascNullsLast | descNullsFirst | descNullsLast | clustered
  deriving DecidableEq

structure SortField where
  expr : Expression
  direction : SortDirection

/-- `sort_relation`, logical and physical. -/
structure SortRelation where
  columnOrders : List Order
  nullPrecedences : List NullOrder
  expressions : List (Expr LiteralValue)

/-- The switch over the direction in `parse_sorts`. -/
def SortDirection.parse : SortDirection → Except ParseError (Order × NullOrder)
  | .ascNullsFirst => .ok (.ascending, .before)
  | .ascNullsLast => .ok (.ascending, .after)
  | .descNullsFirst => .ok (.descending, .before)
  | .descNullsLast => .ok (.descending, .after)
  | .unspecified | .clustered => .error (.invalidArgument "Unsupported SortField_SortDirection")

/-- One turn of the loop of `parse_sorts`. -/
def parseSort (P : Parser) (sortOrder : SortField) :
    Except ParseError (Expr LiteralValue × Order × NullOrder) := do
  let expression ← parseExpression P sortOrder.expr
  let orders ← sortOrder.direction.parse
  .ok (expression, orders)

/-- `parse_sort_relation`, with `parse_sorts`. -/
def parseSortRelation (P : Parser) (sorts : List SortField) : Except ParseError SortRelation := do
  let keys ← sorts.mapM (parseSort P)
  .ok ⟨keys.map (·.2.1), keys.map (·.2.2), keys.map (·.1)⟩

/-! ### Execution -/

variable {V : Type} [LinearOrder V]

/-- The ascending comparison of cuDF. -/
@[simp] def compareAscending (nullPrecedence : NullOrder) : Option V → Option V → Ordering
  | none, none => .eq
  | none, some _ => if nullPrecedence = .before then .lt else .gt
  | some _, none => if nullPrecedence = .before then .gt else .lt
  | some a, some b => compare a b

def compareKey (orders : Order × NullOrder) (a b : Option V) : Ordering :=
  match orders.1 with
  | .ascending => compareAscending orders.2 a b
  | .descending => (compareAscending orders.2 a b).swap

/-- `cudf::sort_by_key`: the rows, each with its keys, in an order that goes by the keys. -/
structure SortByKey (columnOrders : List Order) (nullPrecedences : List NullOrder)
    (keyed sorted : List (Row V × Row V)) : Prop where
  perm : sorted.Perm keyed
  sorted : sorted.Pairwise fun p q =>
    lex compareKey (columnOrders.zip nullPrecedences) p.1 q.1 ≠ .gt

/-- `sort_task::execute`: how the rows of the input, each with its keys, may come out. cuDF gets its
values from the literals by `scalar`. -/
def SortRelation.Executes (C : Cudf V) (scalar : LiteralValue → V) (relation : SortRelation)
    (input : Table V) (sorted : List (Row V × Row V)) : Prop :=
  ∃ keys, evaluateExpressions C input 0 (relation.expressions.map (·.mapValues scalar)) = .ok keys ∧
    SortByKey relation.columnOrders relation.nullPrecedences (keys.rows.zip input.rows) sorted

/-! ### The order a sort asks for -/

@[simp] def SortDirection.nullsFirst : SortDirection → Bool
  | .ascNullsFirst | .descNullsFirst => true
  | _ => false

@[simp] def SortDirection.isDescending : SortDirection → Bool
  | .descNullsFirst | .descNullsLast => true
  | _ => false

/-- The comparison a direction stands for: the place of NULL does not depend on the direction of the
values. -/
@[simp] def SortDirection.compare (direction : SortDirection) : Option V → Option V → Ordering
  | none, none => .eq
  | none, some _ => if direction.nullsFirst then .lt else .gt
  | some _, none => if direction.nullsFirst then .gt else .lt
  | some a, some b => if direction.isDescending then Ord.compare b a else Ord.compare a b

/-- A descending key with NULL on one side only. -/
def DescendingNull (direction : SortDirection) (a b : Option V) : Prop :=
  direction.isDescending ∧ a.isNone ≠ b.isNone

instance (direction : SortDirection) (a b : Option V) : Decidable (DescendingNull direction a b) :=
  inferInstanceAs (Decidable (_ ∧ _))

/-- What cuDF compares by for a direction. -/
@[simp] def SortDirection.orders (direction : SortDirection) : Order × NullOrder :=
  (if direction.isDescending then .descending else .ascending,
    if direction.nullsFirst then .before else .after)

omit [LinearOrder V] in
lemma SortDirection.orders_of_parse {direction : SortDirection} {orders : Order × NullOrder}
    (h : direction.parse = .ok orders) : direction.orders = orders := by
  cases direction <;> cases h <;> rfl

/-- The two comparisons are opposite to each other where a descending key meets NULL. -/
lemma oppositeOn_descendingNull :
    OppositeOn (DescendingNull (V := V)) (fun direction => compareKey direction.orders)
      SortDirection.compare where
  eq_iff direction a b := by
    cases direction <;> cases a <;> cases b <;>
      simp [compareKey]
  symm _ _ _ h := ⟨h.1, h.2.symm⟩
  opposite direction a b h := by
    obtain ⟨hdescending, hnull⟩ := h
    cases direction <;>
      simp only [SortDirection.isDescending, Bool.false_eq_true] at hdescending <;>
      cases a <;> cases b <;>
      simp_all [compareKey]
  same direction a b h := by
    have hswap : ∀ x y : V, (Ord.compare x y).swap = Ord.compare y x :=
      fun x y => Std.OrientedOrd.eq_swap.symm
    cases direction <;> cases a <;> cases b <;>
      simp_all [DescendingNull, compareKey]

/-! ### Sorted as asked for -/

variable {relation : SortRelation}

omit [LinearOrder V] in
lemma zip_parseSortRelation {P : Parser} {sorts : List SortField}
    (h : parseSortRelation P sorts = .ok relation) :
    relation.columnOrders.zip relation.nullPrecedences =
      (sorts.map (·.direction)).map SortDirection.orders := by
  obtain ⟨keys, hkeys, hrelation⟩ := bind_eq_ok h
  obtain rfl := Except.ok.inj hrelation
  have hparsed := mapM_eq_ok_iff.1 hkeys
  clear h hkeys hrelation
  induction hparsed with
  | nil => rfl
  | cons hkey _ ih =>
    obtain ⟨expression, -, hkey⟩ := bind_eq_ok hkey
    obtain ⟨orders, horders, hkey⟩ := bind_eq_ok hkey
    obtain rfl := Except.ok.inj hkey
    simp only [List.map_cons, List.zip_cons_cons, ih]
    rw [SortDirection.orders_of_parse horders]

def SortRelation.keyOf (C : Cudf V) (scalar : LiteralValue → V) (relation : SortRelation)
    (input : Table V) (r : Row V) : Row V :=
  relation.expressions.map fun e => (e.mapValues scalar).eval C input.typeOf r

lemma SortRelation.rows_eq {C : Cudf V} {scalar : LiteralValue → V} {input : Table V}
    {keys : KeyTable V}
    (h : evaluateExpressions C input 0 (relation.expressions.map (·.mapValues scalar)) = .ok keys) :
    keys.rows = input.rows.map (relation.keyOf C scalar input) := by
  rw [isFor_of_evaluateAll (fun e _ => findsRightType_zero _ e) h]
  refine List.map_congr_left fun r _ => ?_
  rw [Join.keyOf, List.map_map]
  refine List.map_congr_left fun e _ => ?_
  exact Expr.eval_rename C (· - 0) input.typeOf input.typeOf r r _ (fun _ _ => rfl) fun _ _ => rfl

lemma lex_map {κ κ' α : Type*} (cmp : κ' → α → α → Ordering) (f : κ → κ') :
    ∀ (ks : List κ) (as bs : List α), lex cmp (ks.map f) as bs = lex (fun k => cmp (f k)) ks as bs
  | [], _, _ => rfl
  | _ :: _, [], _ => rfl
  | _ :: _, _ :: _, [] => rfl
  | k :: ks, a :: as, b :: bs => by simp only [List.map_cons, lex, lex_map cmp f ks as bs]

/-- The sorted rows are in the order the sort asks for, with NULLs first or last for each key
whatever its direction, exactly if the first key in which two rows of the input differ is never a
descending one that is NULL in one of them. -/
theorem pairwise_requested_iff (P : Parser) (C : Cudf V) (scalar : LiteralValue → V)
    (sorts : List SortField) {relation : SortRelation} (input : Table V)
    {sorted : List (Row V × Row V)} (hparse : parseSortRelation P sorts = .ok relation)
    (hexecutes : relation.Executes C scalar input sorted) : (sorted.Pairwise fun p q =>
        lex SortDirection.compare (sorts.map (·.direction)) p.1 q.1 ≠ .gt) ↔
      ∀ r ∈ input.rows, ∀ s ∈ input.rows, ¬FirstDiffer DescendingNull (sorts.map (·.direction))
          (relation.keyOf C scalar input r) (relation.keyOf C scalar input s) := by
  obtain ⟨keys, hkeys, hperm, hsorted⟩ := hexecutes
  have hzip : keys.rows.zip input.rows =
      input.rows.map fun r => (relation.keyOf C scalar input r, r) := by
    rw [SortRelation.rows_eq hkeys]
    rw [← List.zip_map', List.map_id']
  rw [hzip] at hperm
  simp only [zip_parseSortRelation hparse, lex_map compareKey SortDirection.orders] at hsorted
  rw [pairwise_lex_iff oppositeOn_descendingNull Prod.fst hsorted]
  simp only [hperm.mem_iff, List.mem_map]
  constructor
  · intro h r hr s hs
    exact h _ ⟨r, hr, rfl⟩ _ ⟨s, hs, rfl⟩
  · rintro h _ ⟨r, hr, rfl⟩ _ ⟨s, hs, rfl⟩
    exact h r hr s hs

/-- `ORDER BY` the first column in a direction. -/
def byFirstColumn (direction : SortDirection) : List SortField :=
  [⟨.selection (.structField 0 false), direction⟩]

/-- NULLs in an ascending key, and in a descending key after it that is not needed. -/
theorem pairwise_requested_nulls : List.Pairwise (fun p q : Row Int × Row Int =>
        lex SortDirection.compare [.ascNullsLast, .descNullsLast] p.1 q.1 ≠ .gt)
      [([some 1, none], [some 1, none]), ([none, some 3], [none, some 3])] :=
  (pairwise_requested_iff .withoutFunctions .integers (fun _ => 0)
    [⟨.selection (.structField 0 false), .ascNullsLast⟩,
      ⟨.selection (.structField 1 false), .descNullsLast⟩]
    ⟨[.int64, .int64], [[none, some 3], [some 1, none]], by simp, by simp⟩ rfl
    ⟨⟨[.int64, .int64], [[none, some 3], [some 1, none]]⟩, rfl, .swap _ _ _, by decide⟩).2
    (by decide)

/-- NULL and the number 1, ordered descending with NULLs last: NULL comes first. -/
theorem not_pairwise_requested_null :
    ∃ relation, parseSortRelation .withoutFunctions (byFirstColumn .descNullsLast) = .ok relation ∧
      relation.Executes Cudf.integers (fun _ => 0) (.ofColumn .int64 [none, some 1])
        [([none], [none]), ([some 1], [some 1])] ∧ ¬List.Pairwise (fun p q : Row Int × Row Int =>
          lex SortDirection.compare [.descNullsLast] p.1 q.1 ≠ .gt)
        [([none], [none]), ([some 1], [some 1])] :=
  ⟨_, rfl, ⟨⟨[.int64], [[none], [some 1]]⟩, rfl, .refl _, by decide⟩, by decide⟩

end Gqe.Substrait
