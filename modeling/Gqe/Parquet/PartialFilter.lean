import Gqe.Expression
import Gqe.Lib.Fallible
import Gqe.Lib.Scatter
import Mathlib.Algebra.GroupWithZero.Nat

/-!
# Partial filters of Parquet files

A read task of Parquet files may have an `IN` predicate over a column by which the files are
partitioned (`storage/parquet.cpp`): the value of the column is part of the path of a file, and only
files with an acceptable value are loaded. The column is then not read but filled with the values
(`storage/parquet.cu`).
-/

namespace Gqe.Parquet

open List

/-! ### Keys in paths -/

/-- What ends `parse_partial_filter` or `construct_partition_key_column`. -/
inductive Failure where
  | runtimeError (what : String)
  | logicError (what : String)
  | outOfRange
  | noSubquery
  deriving DecidableEq

/-- `[A-Za-z0-9_]`. -/
def isWord (c : Char) : Bool := c.isAlphanum || c = '_'

/-- The second subexpression of a match of `(name=)([A-Za-z0-9_]+)` at the start of a text. -/
def matchPrefix (name text : List Char) : Option (List Char) :=
  if (name ++ ['=']).isPrefixOf text then
    let value := (text.drop (name.length + 1)).takeWhile isWord
    if value = [] then none else some value
  else none

/-- `std::regex_search` for `(name=)([A-Za-z0-9_]+)`, for a name without special characters: the
second subexpression of the leftmost match. -/
def regexSearch (name : List Char) : List Char → Option (List Char)
  | [] => matchPrefix name []
  | c :: text => (matchPrefix name (c :: text)).or (regexSearch name text)

/-- What `std::stoll` throws. -/
inductive StollError where
  | invalidArgument | outOfRange

/-- `std::stoll` of letters, digits and underscores, where nothing precedes the digits. -/
def stoll (text : List Char) : Except StollError Int :=
  let digits := text.takeWhile Char.isDigit
  if digits = [] then .error .invalidArgument
  else if Nat.ofDigitChars 10 digits 0 < 2 ^ 63 then .ok (Nat.ofDigitChars 10 digits 0)
  else .error .outOfRange

/-- What the path of a file says about the partition column. -/
inductive FileKind where
  | partitioned (key : Int)
  | nullPartition
  | nonPartitioned
  deriving DecidableEq

/-- The body of the loop over the files. Only `std::invalid_argument` is caught. -/
def classify (columnName path : List Char) : Except Failure FileKind :=
  match regexSearch columnName path with
  | none => .ok .nonPartitioned
  | some text =>
    match stoll text with
    | .ok key => .ok (.partitioned key)
    | .error .invalidArgument =>
      if text = "__HIVE_DEFAULT_PARTITION__".toList then .ok .nullPartition
      else .error (.runtimeError ("Cannot parse partition key " ++ String.ofList text))
    | .error .outOfRange => .error .outOfRange

/-! ### The filter -/

/-- A column of the result of a subquery. -/
structure HaystackColumn where
  type : DataType
  values : List (Option Int)

structure PartialFilterInfo where
  partitionedFiles : List (Nat × Int)
  columnIdx : Nat
  nonPartitionedFiles : List Nat

/-- The conversion to `int64_t`. -/
def toInt64 (v : Int) : Int := (BitVec.ofInt 64 v).toInt

/-- `file_filter_functor`, over the values of the column that are not NULL. -/
def fileFilter (needles : List (Nat × Int)) (haystack : HaystackColumn) : List (Nat × Int) :=
  if haystack.type.isIntegral ∧ haystack.type ≠ .bool8 then
    let haystackSet := (haystack.values.filterMap id).map toInt64
    needles.filter fun needle => needle.2 ∈ haystackSet
  else []

/-- The keys that were found in the paths, with the indices of the files. -/
def needlesOf (kinds : List FileKind) : List (Nat × Int) :=
  kinds.zipIdx.filterMap fun file =>
    match file.1 with
    | .partitioned key => some (file.2, key)
    | _ => none

def nonPartitionedOf (kinds : List FileKind) : List Nat :=
  kinds.zipIdx.filterMap fun file => if file.1 = .nonPartitioned then some file.2 else none

/-- `parquet_read_task::parse_partial_filter`, given the results of the subqueries. -/
def parsePartialFilter {V : Type*} (columnNames filePaths : List (List Char))
    (partialFilter : Option (Expr V)) (subqueries : List (List HaystackColumn)) :
    Except Failure PartialFilterInfo :=
  match partialFilter with
  | some (.inPredicate [.columnReference columnIdx] relationIndex) => do
    let kinds ← filePaths.mapM (classify (columnNames.getD columnIdx []))
    match subqueries[relationIndex]? with
    | some [haystack] =>
      if haystack.type.isIntegral then
        .ok ⟨fileFilter (needlesOf kinds) haystack, columnIdx, nonPartitionedOf kinds⟩
      else .error (.runtimeError
        "Partial filter in parquet read task does not support non-integral haystack")
    | some _ => .error (.runtimeError "Incorrect number of columns in the partial filter haystack")
    | none => .error .noSubquery
  | some (.inPredicate [_] _) => .error (.runtimeError
      ("Currently only column_reference type expressions are supported for the read task " ++
        "partial filter"))
  | some (.inPredicate _ _) => .error (.runtimeError "Currently only one expression per subquery")
  | _ => .ok ⟨[], 0, List.range filePaths.length⟩

/-! ### The column of keys -/

def castKey : DataType → Int → Int
  | .int8, key => (BitVec.ofInt 8 key).toInt
  | .int16, key => (BitVec.ofInt 16 key).toInt
  | .int32, key => (BitVec.ofInt 32 key).toInt
  | .uint8, key => (BitVec.ofInt 8 key).toNat
  | .uint16, key => (BitVec.ofInt 16 key).toNat
  | .uint32, key => (BitVec.ofInt 32 key).toNat
  | .uint64, key => (BitVec.ofInt 64 key).toNat
  | .bool8, key => if key = 0 then 0 else 1
  | _, key => key

/-- The rows one thread of the kernel fills, with as much fuel as there are rows. -/
def strided (stride numRows : Nat) : Nat → Nat → List Nat
  | 0, _ => []
  | fuel + 1, row => if row < numRows then row :: strided stride numRows fuel (row + stride) else []

/-- The offsets of the partitions in the column, `std::inclusive_scan` after a zero. -/
def offsetOf (numRows : List Nat) (partition : Nat) : Nat := (numRows.take partition).sum

/-- `fill_key_column`: what the threads write, as positions with keys. -/
def fillKeyColumn (gridDim blockDim : Nat) (keys : List Int) (numRows : List Nat) :
    List (Nat × Int) :=
  let numBlocksPerPartition := gridDim / numRows.length
  (List.range gridDim).flatMap fun blockIdx =>
    (List.range blockDim).flatMap fun threadIdx =>
      let partition := blockIdx / numBlocksPerPartition
      let localBlockIdx := blockIdx % numBlocksPerPartition
      let rows := numRows.getD partition 0
      (strided (numBlocksPerPartition * blockDim) rows rows
        (localBlockIdx * blockDim + threadIdx)).map fun row =>
          (offsetOf numRows partition + row, keys.getD partition 0)

def divideRoundUp (dividend divisor : Nat) : Nat :=
  dividend / divisor + if dividend % divisor ≠ 0 then 1 else 0

/-- `construct_partition_key_column`: the element at each position, none where nothing was
written. -/
def constructPartitionKeyColumn (dtype : DataType) (keys : List Int) (numRows : List Nat) :
    Except Failure (Nat → Option Int) :=
  if ¬(dtype.isIntegral ∨ dtype.isFloatingPoint) then
    .error (.logicError "Only numeric types are supported for the partition key column")
  else if ¬dtype.isIntegral then
    .error (.logicError "Partition key columns can only have integral types")
  else
    let numBlocks := divideRoundUp 4000 numRows.length * numRows.length
    .ok (Scatter.scatter (fun write => some write.1)
      (fun _ write => some (castKey dtype write.2)) (fun _ => none)
      (fillKeyColumn numBlocks 128 keys numRows))

/-! ### What the kernel fills -/

variable {row : Nat}

lemma lt_of_mem_strided {stride numRows fuel start : Nat}
    (h : row ∈ strided stride numRows fuel start) : row < numRows := by
  induction fuel generalizing start with
  | zero => cases h
  | succ fuel ih =>
    rw [strided] at h
    split at h
    · rcases mem_cons.1 h with rfl | h
      · assumption
      · exact ih h
    · cases h

lemma mem_strided {stride numRows fuel start k : Nat} (hk : k < fuel)
    (hrow : start + k * stride = row) (hlt : row < numRows) :
    row ∈ strided stride numRows fuel start := by
  induction fuel generalizing start k with
  | zero => omega
  | succ fuel ih =>
    rw [strided, if_pos (by omega)]
    cases k with
    | zero => simp [← hrow]
    | succ k =>
      refine mem_cons_of_mem _ (ih (k := k) (by omega) ?_)
      rw [← hrow, Nat.succ_mul]
      omega

lemma offsetOf_succ (numRows : List Nat) (partition : Nat) :
    offsetOf numRows (partition + 1) = offsetOf numRows partition + numRows.getD partition 0 := by
  rw [offsetOf, offsetOf, take_add_one, getD_eq_getElem?_getD]
  cases numRows[partition]? <;> simp

lemma offsetOf_mono (numRows : List Nat) : Monotone (offsetOf numRows) :=
  monotone_nat_of_le_succ fun partition => by
    rw [offsetOf_succ]
    omega

/-- The rows of different partitions do not overlap. -/
lemma partition_unique {numRows : List Nat} {p q i j : Nat} (hi : i < numRows.getD p 0)
    (hj : j < numRows.getD q 0) (h : offsetOf numRows p + i = offsetOf numRows q + j) : p = q := by
  have hsucc_p := offsetOf_succ numRows p
  have hsucc_q := offsetOf_succ numRows q
  rcases Nat.lt_trichotomy p q with hlt | heq | hgt
  · have := offsetOf_mono numRows (Nat.succ_le_of_lt hlt)
    rw [Nat.succ_eq_add_one] at this
    omega
  · exact heq
  · have := offsetOf_mono numRows (Nat.succ_le_of_lt hgt)
    rw [Nat.succ_eq_add_one] at this
    omega

variable {partition : Nat}

section Fill

variable {blocksPerPartition blockDim : Nat} {keys : List Int} {numRows : List Nat}

lemma key_of_mem_fillKeyColumn {gridDim : Nat} {write : Nat × Int}
    (hwrite : write ∈ fillKeyColumn gridDim blockDim keys numRows)
    (hrow : row < numRows.getD partition 0) (hpos : write.1 = offsetOf numRows partition + row) :
    write.2 = keys.getD partition 0 := by
  simp only [fillKeyColumn, mem_flatMap, mem_map] at hwrite
  obtain ⟨block, -, thread, -, row', hrow', rfl⟩ := hwrite
  rw [partition_unique (lt_of_mem_strided hrow') hrow hpos]

/-- Every row of a partition is written by some thread, if the blocks are divided evenly. -/
lemma exists_mem_fillKeyColumn (keys : List Int) (hblks : 0 < blocksPerPartition)
    (hdim : 0 < blockDim) (hpartition : partition < numRows.length)
    (hrow : row < numRows.getD partition 0) :
    ∃ write ∈ fillKeyColumn (blocksPerPartition * numRows.length) blockDim keys numRows,
      write.1 = offsetOf numRows partition + row := by
  have hgrid : blocksPerPartition * numRows.length / numRows.length = blocksPerPartition :=
    Nat.mul_div_cancel _ (by omega)
  have hstride : 0 < blocksPerPartition * blockDim := Nat.mul_pos hblks hdim
  have hlocal : row % (blocksPerPartition * blockDim) / blockDim < blocksPerPartition :=
    Nat.div_lt_of_lt_mul (by rw [Nat.mul_comm blockDim]; exact Nat.mod_lt _ hstride)
  -- the block of the row, the block among those of the partition and the first row of the thread
  generalize hblk : row % (blocksPerPartition * blockDim) / blockDim = localBlock at hlocal
  have hdiv : (partition * blocksPerPartition + localBlock) / blocksPerPartition = partition := by
    rw [Nat.add_comm, Nat.add_mul_div_right _ _ hblks, Nat.div_eq_of_lt hlocal, Nat.zero_add]
  have hmod : (partition * blocksPerPartition + localBlock) % blocksPerPartition = localBlock := by
    rw [Nat.add_comm, Nat.add_mul_mod_self_right, Nat.mod_eq_of_lt hlocal]
  have hstart : localBlock * blockDim + row % (blocksPerPartition * blockDim) % blockDim =
      row % (blocksPerPartition * blockDim) := by
    rw [← hblk, Nat.mul_comm _ blockDim, Nat.div_add_mod]
  refine ⟨(offsetOf numRows partition + row, keys.getD partition 0), ?_, rfl⟩
  simp only [fillKeyColumn, hgrid, mem_flatMap, mem_map, mem_range]
  refine ⟨partition * blocksPerPartition + localBlock, ?_,
    row % (blocksPerPartition * blockDim) % blockDim, Nat.mod_lt _ hdim, row, ?_, by rw [hdiv]⟩
  · have := Nat.mul_le_mul_right blocksPerPartition (Nat.succ_le_of_lt hpartition)
    rw [Nat.succ_mul, Nat.mul_comm numRows.length] at this
    omega
  · rw [hdiv, hmod, hstart]
    refine mem_strided (k := row / (blocksPerPartition * blockDim))
      (Nat.lt_of_le_of_lt (Nat.div_le_self _ _) hrow) ?_ hrow
    exact Nat.mod_add_div' row (blocksPerPartition * blockDim)

end Fill

lemma divideRoundUp_pos {dividend divisor : Nat} (h : 0 < dividend) :
    0 < divideRoundUp dividend divisor := by
  rw [divideRoundUp]
  split
  · exact Nat.succ_pos _
  · have := Nat.div_add_mod dividend divisor
    refine Nat.add_pos_left (Nat.pos_of_ne_zero fun hzero => ?_) 0
    rw [hzero] at this
    omega

/-- The column has the key of a file in each of its rows. -/
theorem constructColumn_apply {dtype : DataType} (keys : List Int) {numRows : List Nat}
    (hdtype : dtype.isIntegral) (hpartition : partition < numRows.length)
    (hrow : row < numRows.getD partition 0) :
    ∃ column, constructPartitionKeyColumn dtype keys numRows = .ok column ∧
      column (offsetOf numRows partition + row) = some (castKey dtype (keys.getD partition 0)) := by
  refine ⟨_, by rw [constructPartitionKeyColumn, if_neg (by simp [hdtype]),
    if_neg (by simp [hdtype])], ?_⟩
  have hblks : 0 < divideRoundUp 4000 numRows.length := divideRoundUp_pos (by decide)
  obtain ⟨write, hwrite, hpos⟩ :=
    exists_mem_fillKeyColumn keys hblks (show 0 < 128 by decide) hpartition hrow
  refine Scatter.scatter_eq_of_mem hwrite (by rw [hpos]) fun write' hwrite' hpos' => ?_
  rw [key_of_mem_fillKeyColumn hwrite' hrow (Option.some.inj hpos')]

end Gqe.Parquet
