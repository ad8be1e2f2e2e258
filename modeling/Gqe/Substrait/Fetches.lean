import Gqe.Substrait.Expressions
import Mathlib.Algebra.Group.Nat.Defs
import Mathlib.Data.Int.Basic

/-!
# Fetching a window of rows

A Substrait fetch (`OFFSET` and `LIMIT`) on its way through the parser
(`logical/from_substrait.cpp`), the task graph (`executor/task_graph.cpp`) and the task that cuts
the rows out of its input (`executor/fetch.cpp`).
-/

namespace Gqe.Substrait

open List

/-! ### Parsing -/

/-- `offset_mode` and `count_mode` of `substrait::FetchRel`. -/
inductive FetchMode where
  | notSet
  | number (value : BitVec 64)
  | expr (expression : Expression)

/-- `substrait::FetchRel`, without its input. -/
structure FetchRel where
  offset : FetchMode
  count : FetchMode

def foldExpression (P : Parser) (expression : Expression) : Except ParseError (BitVec 64) := do
  let parsedExpression ← parseExpression P expression
  match parsedExpression with
  | .literal _ (.int64 value) _ => .ok value
  | _ => .error (.invalidArgument
      "FetchRel.offset_expr/FetchRel.count_expr is only supported for literal expressions")

/-- The number a mode stands for, with the one for a mode that is not set. -/
def FetchMode.parse (P : Parser) (unset : BitVec 64) : FetchMode → Except ParseError (BitVec 64)
  | .notSet => .ok unset
  | .number value => .ok value
  | .expr expression => foldExpression P expression

/-- `fetch_relation`, logical and physical. -/
structure FetchRelation where
  offset : BitVec 64
  count : BitVec 64
  deriving DecidableEq

def parseFetchRelation (P : Parser) (rel : FetchRel) : Except ParseError FetchRelation := do
  let offset ← rel.offset.parse P 0
  let count ← rel.count.parse P (-1)
  .ok ⟨offset, count⟩

/-! ### Execution -/

/-- What ends a fetch. The language leaves the overflow of a signed integer undefined. -/
inductive FetchError where
  | parse (error : ParseError)
  | overflowError (what : String)
  | signedOverflow
  | sliceOutOfBounds
  deriving DecidableEq

/-- `std::numeric_limits<cudf::size_type>::max()`. -/
def sizeTypeMax : Int := 2147483647

/-- The result of an operation on `cudf::size_type`. -/
def sizeTypeResult (value : Int) : Except FetchError Int :=
  if -sizeTypeMax - 1 ≤ value ∧ value ≤ sizeTypeMax then .ok value else .error .signedOverflow

structure FetchTask where
  offset : BitVec 32
  count : BitVec 32
  deriving DecidableEq

/-- `visit(fetch_relation)`: both numbers are narrowed to `cudf::size_type`. -/
def FetchRelation.toTask (relation : FetchRelation) : Except FetchError FetchTask :=
  if relation.offset.toInt > sizeTypeMax ∨ relation.count.toInt > sizeTypeMax then
    .error (.overflowError
      "Offset or limit overflows when building a task graph for a fetch relation")
  else .ok ⟨relation.offset.truncate 32, relation.count.truncate 32⟩

variable {α : Type}

/-- `cudf::slice` for one pair of indices. -/
def cudfSlice (rows : List α) (start stop : Int) : Except FetchError (List α) :=
  if 0 ≤ start ∧ start ≤ stop ∧ stop ≤ rows.length then
    .ok ((rows.drop start.toNat).take (stop - start).toNat)
  else .error .sliceOutOfBounds

def FetchTask.execute (task : FetchTask) (inputTable : List α) : Except FetchError (List α) := do
  let startIdx := task.offset.toInt
  let largestOffset ← sizeTypeResult (sizeTypeMax - task.count.toInt)
  if largestOffset < task.offset.toInt then
    .error (.overflowError "End row index in fetch relation overflows cudf::size_type.\n")
  else do
    let endIdx ← sizeTypeResult (task.offset.toInt + task.count.toInt)
    let endIdx := if endIdx > inputTable.length then (inputTable.length : Int) else endIdx
    if startIdx ≥ endIdx then .ok [] else cudfSlice inputTable startIdx endIdx

/-- A logical fetch on the rows of its input. -/
def FetchRelation.execute (relation : FetchRelation) (rows : List α) :
    Except FetchError (List α) := do
  let task ← relation.toTask
  task.execute rows

/-- A Substrait fetch on the rows of its input, from the parser to the task. -/
def FetchRel.execute (P : Parser) (rel : FetchRel) (rows : List α) : Except FetchError (List α) :=
  match parseFetchRelation P rel with
  | .error e => .error (.parse e)
  | .ok relation => relation.execute rows

/-! ### Windows of rows -/

/-- The window of `count` rows from `offset` on, where `-1` stands for all rows. -/
def window (offset count : Int) (rows : List α) : List α :=
  if count = -1 then rows.drop offset.toNat else (rows.drop offset.toNat).take count.toNat

/-- The integer literals of Substrait, with their value. -/
def Literal.integer : Literal → Option Int
  | .i8 value | .i16 value | .i32 value => some value.toInt
  | .i64 value => some value.toInt
  | _ => none

/-- The number a fetch asks for, if it is written as a number. -/
def FetchMode.requested (unset : Int) : FetchMode → Option Int
  | .notSet => some unset
  | .number value => some value.toInt
  | .expr (.literal literal) => literal.integer
  | .expr _ => none

/-- A number that is given as an expression is a literal of type `i64`. -/
def FetchMode.IsWide : FetchMode → Prop
  | .expr (.literal (.i64 _)) => True
  | .expr _ => False
  | _ => True

/-- `rel` asks for the window of `count` rows from `offset` on. -/
def FetchRel.Requests (rel : FetchRel) (offset count : Int) : Prop :=
  rel.offset.requested 0 = some offset ∧ rel.count.requested (-1) = some count

/-! ### From the parser to the task -/

section

variable {mode : FetchMode} {n : Int} (P : Parser) (unset : BitVec 64)
  (hreq : mode.requested unset.toInt = some n)
include P unset hreq

lemma FetchMode.parse_eq_ok (hwide : mode.IsWide) :
    ∃ value, mode.parse P unset = .ok value ∧ value.toInt = n := by
  match mode, hreq, hwide with
  | .notSet, hreq, _ => exact ⟨unset, rfl, Option.some.inj hreq⟩
  | .number value, hreq, _ => exact ⟨value, rfl, Option.some.inj hreq⟩
  | .expr (.literal (.i64 value)), hreq, _ =>
    exact ⟨value, rfl, Option.some.inj hreq⟩

/-- A literal of a narrower type parses to a `literal_expression<int32_t>`. -/
lemma FetchMode.parse_eq_error (hwide : ¬mode.IsWide) :
    ∃ e, mode.parse P unset = .error e := by
  match mode, hreq, hwide with
  | .notSet, _, hwide => exact absurd trivial hwide
  | .number _, _, hwide => exact absurd trivial hwide
  | .expr (.literal (.i64 _)), _, hwide => exact absurd trivial hwide
  | .expr (.literal (.i8 value)), _, _ => exact ⟨_, rfl⟩
  | .expr (.literal (.i16 value)), _, _ => exact ⟨_, rfl⟩
  | .expr (.literal (.i32 value)), _, _ => exact ⟨_, rfl⟩

end

variable {offset count : Int}

lemma FetchRel.execute_eq_execute {P : Parser} {rel : FetchRel}
    (hreqs : rel.Requests offset count) (hwide : rel.offset.IsWide ∧ rel.count.IsWide)
    (rows : List α) : ∃ relation : FetchRelation, relation.offset.toInt = offset ∧
      relation.count.toInt = count ∧ rel.execute P rows = relation.execute rows := by
  obtain ⟨o, ho, hoff⟩ := FetchMode.parse_eq_ok P 0 hreqs.1 hwide.1
  obtain ⟨c, hc, hcnt⟩ := FetchMode.parse_eq_ok P (-1) hreqs.2 hwide.2
  refine ⟨⟨o, c⟩, hoff, hcnt, ?_⟩
  simp only [execute, parseFetchRelation, ho, hc, bind, Except.bind]

lemma FetchRel.execute_eq_error {P : Parser} {rel : FetchRel}
    (hreqs : rel.Requests offset count) (hwide : ¬(rel.offset.IsWide ∧ rel.count.IsWide))
    (rows : List α) : ∃ e, rel.execute P rows = .error e := by
  have hpar : ∃ e, parseFetchRelation P rel = .error e := by
    by_cases hoff : rel.offset.IsWide
    · obtain ⟨o, ho, -⟩ := FetchMode.parse_eq_ok P 0 hreqs.1 hoff
      obtain ⟨e, he⟩ := FetchMode.parse_eq_error P (-1) hreqs.2
        fun hcnt => hwide ⟨hoff, hcnt⟩
      exact ⟨e, by simp only [parseFetchRelation, ho, he, bind, Except.bind]⟩
    · obtain ⟨e, he⟩ := FetchMode.parse_eq_error P 0 hreqs.1 hoff
      exact ⟨e, by simp only [parseFetchRelation, he, bind, Except.bind]⟩
  obtain ⟨e, he⟩ := hpar
  exact ⟨.parse e, by simp [execute, he]⟩

/-! ### The task -/

lemma sizeTypeResult_eq_ok (value : Int) (hlow : -sizeTypeMax - 1 ≤ value)
    (hhigh : value ≤ sizeTypeMax) : sizeTypeResult value = .ok value :=
  if_pos ⟨hlow, hhigh⟩

/-- The task returns the rows it is asked for if the end of the window is a `cudf::size_type`. -/
lemma FetchTask.execute_eq_ok (task : FetchTask) (rows : List α) (hoff : 0 ≤ task.offset.toInt)
    (hcnt : 0 ≤ task.count.toInt) (hend : task.offset.toInt + task.count.toInt ≤ sizeTypeMax) :
    task.execute rows = .ok ((rows.drop task.offset.toInt.toNat).take task.count.toInt.toNat) := by
  have hlargest := sizeTypeResult_eq_ok (sizeTypeMax - task.count.toInt)
    (by omega) (by omega)
  have hstop := sizeTypeResult_eq_ok (task.offset.toInt + task.count.toInt)
    (by unfold sizeTypeMax; omega) hend
  simp only [execute, hlargest, hstop, bind, Except.bind]
  rw [if_neg (by omega)]
  split_ifs with hclamp hemp hemp
  · rw [drop_eq_nil_of_le (by omega), take_nil]
  · rw [cudfSlice, if_pos ⟨hoff, by omega, le_rfl⟩]
    rw [take_of_length_le, take_of_length_le] <;> rw [length_drop] <;> omega
  · have hzero : task.count.toInt.toNat = 0 := by omega
    rw [hzero, take_zero]
  · rw [cudfSlice, if_pos ⟨hoff, by omega, by omega⟩]
    congr 2
    omega

/-- A negative count, as for all rows, overflows before it is looked at. -/
lemma FetchTask.execute_eq_error (task : FetchTask) (rows : List α)
    (h : task.count.toInt < 0 ∨ sizeTypeMax < task.offset.toInt + task.count.toInt) :
    ∃ e, task.execute rows = .error e := by
  by_cases hcnt : task.count.toInt < 0
  · have hoverflow : sizeTypeResult (sizeTypeMax - task.count.toInt) = .error .signedOverflow :=
      if_neg (by omega)
    simp [execute, hoverflow]
  · have hlargest : sizeTypeResult (sizeTypeMax - task.count.toInt) =
        .ok (sizeTypeMax - task.count.toInt) := by
      have := task.count.toInt_lt
      exact sizeTypeResult_eq_ok _ (by unfold sizeTypeMax; omega) (by omega)
    refine ⟨.overflowError "End row index in fetch relation overflows cudf::size_type.\n", ?_⟩
    simp only [execute, hlargest, bind, Except.bind]
    rw [if_pos (by omega)]

lemma toInt_truncate (value : BitVec 64) :
    (value.truncate 32).toInt = value.toInt.bmod (2 ^ 32) := by
  rw [BitVec.toInt_setWidth, BitVec.toInt_eq_toNat_bmod, Int.bmod_bmod_of_dvd (by decide)]

lemma bmod_eq_self {n : Int} (hlow : 0 ≤ n) (hhigh : n ≤ sizeTypeMax) : n.bmod (2 ^ 32) = n := by
  unfold sizeTypeMax at hhigh
  exact Int.bmod_eq_of_le (by omega) (by omega)

/-- A count that is narrowed to `count` is asked for without an overflow. -/
def FitsSizeType (offset count : Int) : Prop := 0 ≤ count ∧ offset + count ≤ sizeTypeMax

variable {relation : FetchRelation}

/-- The narrowed count decides whether the task runs, and how many rows it returns. -/
lemma FetchRelation.execute_eq_ok_iff (rows result : List α)
    (hoff : 0 ≤ relation.offset.toInt) (hcnt : relation.count.toInt ≤ sizeTypeMax) :
    relation.execute rows = .ok result ↔
      FitsSizeType relation.offset.toInt (relation.count.toInt.bmod (2 ^ 32)) ∧
      result = (rows.drop relation.offset.toInt.toNat).take
        (relation.count.toInt.bmod (2 ^ 32)).toNat := by
  by_cases hlarge : sizeTypeMax < relation.offset.toInt
  · have htask : relation.toTask = .error (.overflowError
        "Offset or limit overflows when building a task graph for a fetch relation") :=
      if_pos (.inl hlarge)
    simp only [execute, htask, bind, Except.bind, reduceCtorEq, false_iff]
    rintro ⟨⟨hnonneg, hend⟩, -⟩
    omega
  · have htask : relation.toTask = .ok ⟨relation.offset.truncate 32, relation.count.truncate 32⟩ :=
      if_neg (by omega)
    simp only [execute, htask, bind, Except.bind]
    have ho : (relation.offset.truncate 32).toInt = relation.offset.toInt := by
      rw [toInt_truncate, bmod_eq_self hoff (by omega)]
    have hc := toInt_truncate relation.count
    by_cases hfits : FitsSizeType relation.offset.toInt (relation.count.toInt.bmod (2 ^ 32))
    · have hexec := FetchTask.execute_eq_ok
        ⟨relation.offset.truncate 32, relation.count.truncate 32⟩ rows
        (ho ▸ hoff) (hc ▸ hfits.1) (ho ▸ hc ▸ hfits.2)
      rw [hexec, Except.ok.injEq, ho, hc]
      exact ⟨fun h => ⟨hfits, h.symm⟩, fun h => h.2.symm⟩
    · obtain ⟨e, he⟩ := FetchTask.execute_eq_error
        ⟨relation.offset.truncate 32, relation.count.truncate 32⟩ rows (by
          rw [ho, hc]
          unfold FitsSizeType at hfits
          omega)
      rw [he]
      constructor
      · intro h
        cases h
      · intro h
        exact absurd h.1 hfits

/-- A count too large for the task graph ends the query. -/
lemma FetchRelation.execute_eq_error (rows : List α)
    (hcnt : sizeTypeMax < relation.count.toInt) : ∃ e, relation.execute rows = .error e := by
  have htask : relation.toTask = .error (.overflowError
      "Offset or limit overflows when building a task graph for a fetch relation") :=
    if_pos (.inr hcnt)
  exact ⟨_, by simp only [execute, htask]; rfl⟩

/-- When a fetch that asks for `count` rows from `offset` on returns them: the count is one of the
numbers below `2 ^ 31` and the end of the window is as well. A negative count other than `-1` asks
for no rows, and gets none if what is left of it after narrowing is zero, or beyond the input. -/
def FetchCondition (numRows : Nat) (offset count : Int) : Prop :=
  FitsSizeType offset count ∨ count < -1 ∧ FitsSizeType offset (count.bmod (2 ^ 32)) ∧
      (count.bmod (2 ^ 32) = 0 ∨ numRows ≤ offset)

lemma take_drop_eq_nil_iff {rows : List α} (hoff : 0 ≤ offset) (hcnt : 0 ≤ count) :
    [] = (rows.drop offset.toNat).take count.toNat ↔ count = 0 ∨ rows.length ≤ offset := by
  rw [eq_comm, take_eq_nil_iff, drop_eq_nil_iff]
  omega

lemma FetchRelation.execute_eq_rows_iff (rows : List α) (hoff : 0 ≤ relation.offset.toInt) :
    relation.execute rows = .ok (window relation.offset.toInt relation.count.toInt rows) ↔
      FetchCondition rows.length relation.offset.toInt relation.count.toInt := by
  generalize hc : relation.count.toInt = count
  by_cases hlarge : sizeTypeMax < count
  · obtain ⟨e, he⟩ := relation.execute_eq_error rows (hc ▸ hlarge)
    simp only [he, reduceCtorEq, false_iff]
    rintro (⟨hnonneg, hend⟩ | ⟨hneg, -⟩)
    · omega
    · unfold sizeTypeMax at hlarge
      omega
  rw [execute_eq_ok_iff rows _ hoff (by omega), hc]
  rcases lt_trichotomy count (-1) with hneg | rfl | hnonneg
  · have hwin : window relation.offset.toInt count rows = [] := by
      rw [window, if_neg (by omega), Int.toNat_of_nonpos (by omega), take_zero]
    rw [hwin]
    constructor
    · rintro ⟨hfits, hemp⟩
      exact .inr ⟨hneg, hfits, (take_drop_eq_nil_iff hoff hfits.1).1 hemp⟩
    · rintro (hfits | ⟨-, hfits, hemp⟩)
      · exact absurd hfits.1 (by omega)
      · exact ⟨hfits, (take_drop_eq_nil_iff hoff hfits.1).2 hemp⟩
  · simp [FetchCondition, FitsSizeType]
  · rw [bmod_eq_self (by omega) (by omega), window, if_neg (by omega), and_iff_left rfl]
    constructor
    · exact .inl
    · rintro (hfits | ⟨hneg, -⟩)
      · exact hfits
      · omega

/-- A fetch returns the window of rows it asks for exactly if its numbers are given as 64-bit
integers, and the end of the window is a `cudf::size_type`; in particular it never returns all
rows from the offset on. -/
theorem execute_eq_window_iff (P : Parser) (rel : FetchRel) (offset count : Int) (rows : List α)
    (hrequests : rel.Requests offset count) (hoffset : 0 ≤ offset) :
    rel.execute P rows = .ok (window offset count rows) ↔
      (rel.offset.IsWide ∧ rel.count.IsWide) ∧ FetchCondition rows.length offset count := by
  by_cases hwide : rel.offset.IsWide ∧ rel.count.IsWide
  · obtain ⟨relation, rfl, rfl, hexecute⟩ :=
      FetchRel.execute_eq_execute hrequests hwide rows
    rw [hexecute, and_iff_right hwide]
    exact FetchRelation.execute_eq_rows_iff rows hoffset
  · obtain ⟨e, he⟩ := FetchRel.execute_eq_error (P := P) hrequests hwide rows
    simp [he, hwide]

/-- `LIMIT 1 OFFSET 1` on three rows. -/
theorem execute_eq_window_limit :
    FetchRel.execute .withoutFunctions ⟨.number 1, .expr (.literal (.i64 1))⟩ [10, 20, 30] =
      .ok [20] :=
  (execute_eq_window_iff _ _ 1 1 [10, 20, 30] ⟨rfl, rfl⟩ (by decide)).2
    ⟨⟨trivial, trivial⟩, .inl ⟨by decide, by decide⟩⟩

/-- `OFFSET 1` without a limit on three rows. -/
theorem execute_ne_window_offset : FetchRel.Requests ⟨.number 1, .notSet⟩ 1 (-1) ∧
      window 1 (-1) [10, 20, 30] = [20, 30] ∧
      FetchRel.execute .withoutFunctions ⟨.number 1, .notSet⟩ [10, 20, 30] =
        .error .signedOverflow :=
  ⟨⟨rfl, rfl⟩, rfl, rfl⟩

end Gqe.Substrait
