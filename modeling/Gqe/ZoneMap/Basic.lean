import Gqe.Table
import Mathlib.Order.Defs.LinearOrder

/-!
# Zone maps

`storage/zone_map.cpp`: a table is cut into partitions of equal size, the minimum and maximum of
every column of every partition are kept in a zone map, and a filter is turned into an arrow
expression over these statistics. A partition is pruned when the expression is not TRUE on it.
-/

namespace Gqe

/-- A zone map of a table: its columns alternate minima and maxima, one value for each
partition, and are named by their position. -/
structure ZoneMap (V : Type*) where
  partitionSize : Nat
  numRows : Nat
  zoneMap : List (List (Option V))
  nullCounts : List (List Nat)
  partitionSize_pos : 0 < partitionSize

namespace ZoneMap

open ThreeValued List

/-! ### Arrow expressions -/

/-- The comparison functions the transformer calls. -/
inductive Comparison where
  | less | lessEqual | greaterEqual | greater
  deriving DecidableEq

/-- The `arrow::compute::Expression`s the transformer builds. -/
inductive ArrowExpr (V : Type*) where
  | literal (value : V)
  | fieldRef (name : String)
  | compare (func : Comparison) (lhs rhs : ArrowExpr V)
  | and (lhs rhs : ArrowExpr V)
  | or (lhs rhs : ArrowExpr V)
  | invert (arg : ArrowExpr V)
  | utf8SliceCodeunits (arg : ArrowExpr V) (start stop : Int)

variable {V : Type*}

section Eval
variable [LinearOrder V]

def Comparison.holds (op : Comparison) (a b : V) : Bool :=
  match op with
  | .less         => a < b
  | .lessEqual    => a ≤ b
  | .greaterEqual => b ≤ a
  | .greater      => b < a

/-- Value of an arrow expression on one record: comparisons, `and`, `or` and `invert` are NULL as
soon as an operand is. `slice` is arrow's `utf8_slice_codeunits`. -/
@[simp] def ArrowExpr.eval (C : Cudf V) (slice : Int → Int → V → V) (field : String → Option V) :
    ArrowExpr V → Option V
  | .literal v         => some v
  | .fieldRef name     => field name
  | .compare op l r    => Option.map₂ (fun a b => C.ofBool (op.holds a b))
                            (l.eval C slice field) (r.eval C slice field)
  | .and l r           => (strictAnd (C.toBool (l.eval C slice field))
                            (C.toBool (r.eval C slice field))).map C.ofBool
  | .or l r            => (strictOr (C.toBool (l.eval C slice field))
                            (C.toBool (r.eval C slice field))).map C.ofBool
  | .invert e          => (knot (C.toBool (e.eval C slice field))).map C.ofBool
  | .utf8SliceCodeunits e start stop => (e.eval C slice field).map (slice start stop)

end Eval

/-! ### The filter transformer -/

/-- The operand of a comparison that is being visited. -/
inductive Side where
  | lhs | rhs
  deriving DecidableEq

/-- The mutable members of `zone_map_expression_transformer`. -/
structure VisitState where
  currentComparison : Option Comparison := none
  side : Side := .lhs
  insideNegation : Bool := false
  deriving DecidableEq

/-- A visit throws or leaves an entry in the transformation map, `none` for an ignored
expression. -/
abbrev Visitor (V : Type*) := VisitState → Except String (Option (ArrowExpr V))

def visitComparisonExpression (op : Comparison) (lhs rhs : Visitor V) : Visitor V := fun st => do
  if st.currentComparison.isSome then
    throw "Current comparison operator already set"
  let transformedLhs ← lhs { st with currentComparison := some op, side := .lhs }
  let transformedRhs ← rhs { st with currentComparison := some op, side := .rhs }
  match transformedLhs, transformedRhs with
  | some l, some r => return some (.compare op l r)
  | _, _ => return none

/-- The supported operand alone is kept if the other one is ignored. -/
def visitAndExpression (lhs rhs : Visitor V) : Visitor V := fun st => do
  let transformedLhs ← lhs st
  let transformedRhs ← rhs st
  match transformedLhs, transformedRhs with
  | some l, some r => return some (.and l r)
  | some l, none => return some l
  | none, some r => return some r
  | none, none => return none

def visitOrExpression (lhs rhs : Visitor V) : Visitor V := fun st => do
  let transformedLhs ← lhs st
  let transformedRhs ← rhs st
  match transformedLhs, transformedRhs with
  | some l, some r => return some (.or l r)
  | _, _ => return none

/-- `lhs = rhs` is visited as `lhs <= rhs AND lhs >= rhs`. -/
def visitEqualExpression (lhs rhs : Visitor V) : Visitor V :=
  visitAndExpression (visitComparisonExpression .lessEqual lhs rhs)
    (visitComparisonExpression .greaterEqual lhs rhs)

/-- The statistic that stands for a column: column `2 * i` of the zone map is the minimum of
column `i`, column `2 * i + 1` its maximum. -/
def visitColumnReference (columnIdx : Nat) : Visitor V := fun st => do
  let some op := st.currentComparison | throw "Comparison operator not set"
  let swap (b : Bool) (p : Nat × Nat) := if b then p.swap else p
  let idx := (2 * columnIdx, 2 * columnIdx + 1)
  let idx := swap (op = .greater || op = .greaterEqual) idx
  let idx := swap (st.side = .rhs) idx
  let idx := swap st.insideNegation idx
  return some (.fieldRef (toString idx.1))

/-- Literals of 64-bit integers and floats are ignored; the visitor has no overload for the
remaining types. A NULL literal is transformed like any other. -/
def visitLiteral (type : DataType) (value : V) : Visitor V := fun _ =>
  match type with
  | .int8 | .int32 | .float64 | .timestampDays | .string => return some (.literal value)
  | .int64 | .float32 => return none
  | _ => throw "Visiting a generic literal_expression<T> is not implemented"

/-- The `visit` overloads of `zone_map_expression_transformer`. -/
def visit : Expr V → Visitor V
  | .columnReference i   => visitColumnReference i
  | .literal t v _       => visitLiteral t v
  | .binaryOp op l r     =>
    match op with
    | .equal          => visitEqualExpression (visit l) (visit r)
    | .notEqual       => fun _ => return none
    | .less           => visitComparisonExpression .less (visit l) (visit r)
    | .lessEqual      => visitComparisonExpression .lessEqual (visit l) (visit r)
    | .greater        => visitComparisonExpression .greater (visit l) (visit r)
    | .greaterEqual   => visitComparisonExpression .greaterEqual (visit l) (visit r)
    | .nullLogicalAnd => visitAndExpression (visit l) (visit r)
    | .nullLogicalOr  => visitOrExpression (visit l) (visit r)
    | _ => fun _ => throw "Visiting binary_op_expression is not implemented"
  | .unaryOp op e        =>
    match op with
    | .not => fun st => do
      let child ← visit e { st with insideNegation := !st.insideNegation }
      return child.map .invert
    | _ => fun _ => throw "Visiting unary_op_expression is not implemented"
  | .scalarFunction fn e =>
    match fn with
    | .like _ _ _ => fun _ => return none
    | .substr start length => fun st => do
      let child ← visit e st
      return child.map (.utf8SliceCodeunits · start (start + length))
    | _ => fun _ => throw "Visiting scalar_function_expression is not implemented"
  | .isNull _ | .cast _ _ | .ifThenElse _ _ _ | .inPredicate _ _ => fun _ => return none

def transform (e : Expr V) : Except String (Option (ArrowExpr V)) := visit e {}

/-! ### The zone map of a table -/

def divideRoundUp (a b : Nat) : Nat := a / b + if a % b ≠ 0 then 1 else 0

lemma lt_divideRoundUp {a b : Nat} (hb : 0 < b) (p : Nat) : p < divideRoundUp a b ↔ p * b < a := by
  unfold divideRoundUp
  split
  · rw [Nat.lt_succ_iff, Nat.le_div_iff_mul_le hb]
    refine ⟨fun h => lt_of_le_of_ne h ?_, le_of_lt⟩
    rintro rfl
    simp_all
  · rw [Nat.add_zero, Nat.lt_div_iff_mul_lt' (Nat.dvd_of_mod_eq_zero (by simp_all)), Nat.mul_comm]

lemma divideRoundUp_le_iff {a b m : Nat} (hb : 0 < b) : divideRoundUp a b ≤ m ↔ a ≤ m * b := by
  rw [← Nat.not_lt, lt_divideRoundUp hb, Nat.not_lt]

/-- The partition boundaries that are handed to `cudf::segmented_reduce`. -/
def segmentOffsets (numRows partitionSize : Nat) : List Nat :=
  (range (divideRoundUp numRows partitionSize)).map (· * partitionSize) ++ [numRows]

/-- The entries `start, ..., stop - 1` of a list. -/
def segment {α : Type*} (l : List α) (start stop : Nat) : List α := (l.take stop).drop start

/-- `cudf::segmented_reduce`: one value for each two consecutive offsets. -/
def segmentedReduce (f : List (Option V) → Option V) (column : List (Option V))
    (offsets : List Nat) : List (Option V) :=
  zipWith (fun start stop => f (segment column start stop)) offsets offsets.tail

section Compute
variable [LinearOrder V]

/-- Minimum of the values that are not NULL, NULL if there are none. -/
@[simp] def minExcludeNulls (l : List (Option V)) : Option V := l.reduceOption.min?

/-- Maximum of the values that are not NULL, NULL if there are none. -/
def maxExcludeNulls (l : List (Option V)) : Option V := l.reduceOption.max?

/-- `compute_cudf_zone_map`: minimum and maximum column of each column. -/
def computeZoneMap (t : Table V) (partitionSize : Nat) : List (List (Option V)) :=
  let offsets := segmentOffsets t.numRows partitionSize
  (range t.numColumns).flatMap fun i =>
    [segmentedReduce minExcludeNulls (t.column i) offsets,
      segmentedReduce maxExcludeNulls (t.column i) offsets]

/-- `compute_null_counts`, for each column and partition. -/
def computeNullCounts (t : Table V) (partitionSize : Nat) : List (List Nat) :=
  (range t.numColumns).map fun i =>
    (range (divideRoundUp t.numRows partitionSize)).map fun p =>
      let start := p * partitionSize
      (segment (t.column i) start (min (start + partitionSize) t.numRows)).countP (·.isNone)

/-- The constructor of `zone_map`, with the error of `check_partition_size`. -/
def ofTable (t : Table V) (partitionSize : Nat) : Except String (ZoneMap V) :=
  if h : partitionSize = 0 then
    .error "Partition size for partition pruning must be larger than 0"
  else
    .ok { partitionSize, numRows := t.numRows, zoneMap := computeZoneMap t partitionSize,
          nullCounts := computeNullCounts t partitionSize,
          partitionSize_pos := Nat.pos_of_ne_zero h }

end Compute

/-! ### Evaluation of a transformed filter -/

/-- `zone_map::partition`: the rows `start, ..., stop - 1`. -/
structure Partition where
  pruned : Bool
  start : Nat
  stop : Nat
  nullCounts : List Nat
  deriving DecidableEq

/-- The field names of the zone map, `std::to_string` of the positions. -/
def names (zm : ZoneMap V) : List String := (range zm.zoneMap.length).map toString

/-- The value of a field of the zone map in the record of partition `p`. -/
def field (zm : ZoneMap V) (p : Nat) (name : String) : Option V :=
  (zm.zoneMap.getD (zm.names.idxOf name) []).getD p none

def numPartitions (zm : ZoneMap V) : Nat := (zm.zoneMap.headD []).length

def ArrowExpr.fields : ArrowExpr V → List String
  | .literal _       => []
  | .fieldRef name   => [name]
  | .compare _ l r   => l.fields ++ r.fields
  | .and l r         => l.fields ++ r.fields
  | .or l r          => l.fields ++ r.fields
  | .invert e        => e.fields
  | .utf8SliceCodeunits e _ _ => e.fields

/-- The fields are found, and there are some: the value of an expression without any is a scalar,
from which no mask is made. -/
def ArrowExpr.isBound (names : List String) (e : ArrowExpr V) : Bool :=
  !e.fields.isEmpty && e.fields.all (· ∈ names)

/-- `zone_map::evaluate`. It aborts unless the filter is bound. A NULL entry of the mask is read as
the bit that happens to be stored for it, `raw`. -/
def evaluate [LinearOrder V] (C : Cudf V) (slice : Int → Int → V → V) (raw : Nat → Bool)
    (zm : ZoneMap V) (partialFilter : ArrowExpr V) : Option (List Partition) :=
  if partialFilter.isBound zm.names then
    some <| (range zm.numPartitions).map fun i =>
      let start := i * zm.partitionSize
      let partitionMatches := (C.toBool (partialFilter.eval C slice (zm.field i))).getD (raw i)
      { pruned := !partitionMatches, start := start,
        stop := min (start + zm.partitionSize) zm.numRows,
        nullCounts := zm.nullCounts.map (·.getD i 0) }
  else none

/-! ### Shared zone maps -/

/-- `shared_zone_map` before its first evaluation. -/
def unloaded (shared : ZoneMap V) : ZoneMap V :=
  { shared with numRows := 0, zoneMap := [], nullCounts := [] }

/-- `load_from_shared_memory`: the NULL counts are appended to those that are there. -/
def loadFromSharedMemory (shared zm : ZoneMap V) : ZoneMap V :=
  { zm with numRows := shared.numRows, zoneMap := shared.zoneMap,
            nullCounts := zm.nullCounts ++ shared.nullCounts }

/-- `shared_zone_map::evaluate`. -/
def sharedEvaluate [LinearOrder V] (C : Cudf V) (slice : Int → Int → V → V) (raw : Nat → Bool)
    (shared zm : ZoneMap V) (partialFilter : ArrowExpr V) : ZoneMap V × Option (List Partition) :=
  let zm := loadFromSharedMemory shared zm
  (zm, zm.evaluate C slice raw partialFilter)

section Shared
variable [LinearOrder V] (C : Cudf V) (slice : Int → Int → V → V) (raw : Nat → Bool)
  (shared : ZoneMap V)

/-- The zone map after some evaluations. -/
def afterEvaluations (filters : List (ArrowExpr V)) : ZoneMap V :=
  filters.foldl (fun zm filter => (sharedEvaluate C slice raw shared zm filter).1) shared.unloaded

lemma load_foldl (zm : ZoneMap V) (filters : List (ArrowExpr V)) :
    loadFromSharedMemory shared
        (filters.foldl (fun zm filter => (sharedEvaluate C slice raw shared zm filter).1) zm) =
      loadFromSharedMemory { shared with
        nullCounts := (replicate (filters.length + 1) shared.nullCounts).flatten } zm := by
  induction filters generalizing zm with
  | nil => simp
  | cons filter filters ih =>
    rw [foldl_cons, ih]
    simp [sharedEvaluate, loadFromSharedMemory, replicate_succ]

variable {C slice raw}

lemma evaluate_nullCounts_eq_iff {zm : ZoneMap V} {counts : List (List Nat)}
    {partialFilter : ArrowExpr V} (hbound : partialFilter.isBound zm.names) :
    evaluate C slice raw { zm with nullCounts := counts } partialFilter =
        evaluate C slice raw zm partialFilter ↔
      ∀ i < zm.numPartitions, counts.map (·.getD i 0) = zm.nullCounts.map (·.getD i 0) := by
  have heq : ∀ counts, evaluate C slice raw { zm with nullCounts := counts } partialFilter =
      some ((range zm.numPartitions).map fun i =>
        ⟨!(C.toBool (partialFilter.eval C slice (zm.field i))).getD (raw i), i * zm.partitionSize,
          min (i * zm.partitionSize + zm.partitionSize) zm.numRows, counts.map (·.getD i 0)⟩) :=
    fun counts => if_pos hbound
  rw [heq counts, heq zm.nullCounts]
  simp

/-- An evaluation gives what the first one gives if and only if it is the first one, there are no
columns or no partitions, or both abort. -/
theorem sharedEvaluate_eq_first_iff (filters : List (ArrowExpr V)) (partialFilter : ArrowExpr V) :
    (sharedEvaluate C slice raw shared (afterEvaluations C slice raw shared filters)
        partialFilter).2 = (sharedEvaluate C slice raw shared shared.unloaded partialFilter).2 ↔
      filters = [] ∨ shared.nullCounts = [] ∨ shared.numPartitions = 0 ∨
        ¬ partialFilter.isBound shared.names := by
  rw [sharedEvaluate, afterEvaluations, load_foldl]
  change evaluate C slice raw { shared with
    nullCounts := (replicate (filters.length + 1) shared.nullCounts).flatten } _ =
      evaluate C slice raw shared _ ↔ _
  by_cases hbound : partialFilter.isBound shared.names
  · rw [evaluate_nullCounts_eq_iff hbound]
    constructor
    · intro h
      by_contra hnot
      push Not at hnot
      obtain ⟨hfilters, hnulls, hparts, -⟩ := hnot
      have hlen := congrArg length (h 0 (Nat.pos_of_ne_zero hparts))
      have hpos := Nat.mul_pos (length_pos_of_ne_nil hfilters) (length_pos_of_ne_nil hnulls)
      simp only [length_map, length_flatten, map_replicate, sum_replicate_nat, Nat.succ_mul] at hlen
      omega
    · rintro (rfl | hnulls | hparts | hnot) i hi
      · simp
      · simp [hnulls]
      · omega
      · exact absurd hbound hnot
  · exact iff_of_true ((if_neg hbound).trans (if_neg hbound).symm) (.inr (.inr (.inr hbound)))

end Shared

/-- One column without NULLs, in one partition: the second evaluation of `min < 3` gives
two counts. -/
theorem sharedEvaluate_second :
    let shared : ZoneMap Int := ⟨2, 2, [[some 1], [some 5]], [[0]], by decide⟩
    let filter : ArrowExpr Int := .compare .less (.fieldRef "0") (.literal 3)
    (sharedEvaluate .integers (fun _ _ v => v) (fun _ => true) shared shared.unloaded filter).2 =
        some [⟨false, 0, 2, [0]⟩] ∧
      (sharedEvaluate .integers (fun _ _ v => v) (fun _ => true) shared
        (afterEvaluations .integers (fun _ _ v => v) (fun _ => true) shared [filter]) filter).2 =
          some [⟨false, 0, 2, [0, 0]⟩] := by decide

end ZoneMap

end Gqe
