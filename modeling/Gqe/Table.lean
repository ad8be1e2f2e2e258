import Gqe.Expression
import Mathlib.Data.List.Basic

/-!
# Tables

A table is a list of typed columns of one length, as in cuDF. It is stored by rows; the two
invariants say that every row has one value for each column and, since a table gets its number of
rows from its columns, that a table without columns has no rows.
-/

namespace Gqe

/-- A table with columns of the given types. -/
@[ext] structure Table (V : Type*) where
  types : List DataType
  rows : List (Row V)
  length_row : ∀ r ∈ rows, r.length = types.length
  rows_of_no_columns : types = [] → rows = []

namespace Table

variable {V : Type*}

def numRows (t : Table V) : Nat := t.rows.length

def numColumns (t : Table V) : Nat := t.types.length

/-- The type of column `i`, `empty` beyond the last column. -/
def typeOf (t : Table V) (i : Nat) : DataType := t.types.getD i .empty

/-- The values of column `i`. -/
def column (t : Table V) (i : Nat) : List (Option V) := t.rows.map (·.col i)

/-- The table with one row for each item, unless it has no columns. -/
def build {ι : Type*} (types : List DataType) (items : List ι) (row : ι → Row V)
    (h : ∀ i ∈ items, (row i).length = types.length) : Table V where
  types := types
  rows := if types = [] then [] else items.map row
  length_row := by
    intro r hr
    by_cases ht : types = []
    · simp [ht] at hr
    · simp only [ht, if_false, List.mem_map] at hr
      obtain ⟨i, hi, rfl⟩ := hr
      exact h i hi
  rows_of_no_columns := fun ht => by simp [ht]

@[simp] lemma types_build {ι : Type*} (types : List DataType) (items : List ι) (row : ι → Row V)
    (h : ∀ i ∈ items, (row i).length = types.length) :
    (build types items row h).types = types := rfl

def ofColumn (type : DataType) (values : List (Option V)) : Table V :=
  build [type] values (fun v => [v]) (by simp)

end Table

end Gqe
