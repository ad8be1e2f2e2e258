import Gqe.Aggregation.Correctness
import Gqe.Uniqueness.Properties

/-!
# Operators that drop, reorder and rename

Projections, filters, set operations, sorts, fetches, windows, writes, and semi, anti and single
joins keep the keys of their input, and the rule records all of them.
-/

namespace Gqe.Uniqueness

open UniqueKey List RelationProperties Option

variable {V : Type*}

/-! ### What relations produce -/

/-- The stored tables, with the names of their columns. -/
structure Database (V : Type*) where
  table : (tableName : String) → Table V
  columnNames : String → List String
  length_columnNames : ∀ name, (columnNames name).length = (table name).numColumns

section Produces
variable [LinearOrder V] [AddCommMonoidWithOne V]

/-- The output of a relation for the outputs of its children. Sorting, writing and reading may
return the rows in any order; a read or a write may skip rows, and a window drops the rows without
a partition. Set operations other than `UNION ALL` return no row twice. -/
def Produces (db : Database V) (R : Aggregation.Reductions V) (C : Cudf V) (op : RelOp V)
    (children : List (Table V)) (out : Table V) : Prop :=
  match op, children with
  | .read tableName names _ _, [] =>
    out.numColumns = names.length ∧ out.rows.Subperm ((db.table tableName).rows.map fun r =>
        names.map fun name => r.col ((db.columnNames tableName).idxOf name))
  | .filter condition p, [t] => out = t.filter C condition p
  | .project es, [t] => out = t.project C es
  | .join condition type p, [l, r] => out = l.join C condition type p r
  | .aggregate keys measures, [t] =>
    out.numColumns = keys.length + measures.length ∧
      out.rows.Perm (Aggregation.groupOnce R C keys measures t.typeOf t.rows)
  | .set .union, [l, r] =>
    out.types = l.types ∧ out.rows.Nodup ∧ ∀ row, row ∈ out.rows ↔ row ∈ l.rows ∨ row ∈ r.rows
  | .set .unionAll, [l, r] => out.types = l.types ∧ out.rows.Perm (l.rows ++ r.rows)
  | .set .intersect, [l, r] =>
    out.types = l.types ∧ out.rows.Subperm l.rows ∧ ∀ row ∈ out.rows, row ∈ r.rows
  | .set .minus, [l, r] =>
    out.types = l.types ∧ out.rows.Subperm l.rows ∧ ∀ row ∈ out.rows, row ∉ r.rows
  | .sort _ _ _, [t] => out.types = t.types ∧ out.rows.Perm t.rows
  | .fetch offset count, [t] =>
    out.types = t.types ∧ out.rows = (t.rows.drop offset).take count
  | .window _ _ _ _ _ _ _, [t] =>
    (∃ type, out.types = t.types ++ [type]) ∧
      ∃ rows, rows.Subperm t.rows ∧ List.Forall₂ (fun r row => ∃ v, row = r ++ [v]) rows out.rows
  | .write _ _ _, [t] => out.types = t.types ∧ out.rows.Subperm t.rows
  | .userDefined _ types, _ => out.types = types
  | _, _ => False

end Produces

/-- The relations whose output rows are rows of one input, or all different, and whose columns are
columns of that input. -/
def DropsOrRenames : RelOp V → Prop
  | .project _ | .filter _ _ | .set _ | .fetch _ _ | .sort _ _ _ | .window _ _ _ _ _ _ _
  | .write _ _ _ => True
  | .join _ type _ => type = .leftSemi ∨ type = .leftAnti ∨ type = .single
  | _ => False

/-- The keys the output of such a relation is meant to have. -/
def Records (op : RelOp V) (children : List (Table V × RelationProperties)) (key : List Nat) :
    Prop :=
  let choice (columns : List (Option Nat)) (p : RelationProperties) :=
    ∃ k ∈ p.uniqueKeys, ∃ out, Chooses columns k out ∧ key = sortKey out
  match op, children with
  | .project es, [(_, c)] => choice (es.map columnIdx?) c
  | .filter _ p, [(_, c)] | .join _ _ p, [(_, c), _] => choice (p.map some) c
  | .set .union, [(t, _), _] => t.numColumns ≠ 0 ∧ key = range t.numColumns
  | .set .unionAll, _ => False
  | .set .intersect, [(_, c), _] | .set .minus, [(_, c), _] => key ∈ c.uniqueKeys
  | _, [(_, c)] => key ∈ c.uniqueKeys
  | _, _ => False

/-! ### Single operators -/

variable {nulls : NullEquality} {key : List Nat} {t out : Table V}

lemma IsKey.subperm (h : IsKey nulls t key) (htys : out.types = t.types)
    (hsub : out.rows.Subperm t.rows) : IsKey nulls out key :=
  ⟨by simpa [Table.numColumns, htys] using h.lt_numColumns, h.unique.subperm Agree.symm hsub⟩

lemma agree_append {r s x y : Row V} (hr : ∀ c ∈ key, c < r.length) (hs : ∀ c ∈ key, c < s.length) :
    Agree nulls key (r ++ x) (s ++ y) ↔ Agree nulls key r s := by
  refine forall₂_congr fun c hc => ?_
  rw [Row.col_append_left (hr c hc), Row.col_append_left (hs c hc)]

lemma IsKey.lt_length (h : IsKey nulls t key) {r : Row V} (hr : r ∈ t.rows) :
    ∀ c ∈ key, c < r.length := fun c hc => by
  rw [t.length_row r hr]
  exact h.lt_numColumns c hc

lemma IsKey.window (h : IsKey nulls t key) {type : DataType}
    (htys : out.types = t.types ++ [type]) {rows : List (Row V)} (hsub : rows.Subperm t.rows)
    (hrows : List.Forall₂ (fun r row => ∃ v, row = r ++ [v]) rows out.rows) :
    IsKey nulls out key := by
  refine ⟨fun c hc => ?_, (h.unique.subperm Agree.symm hsub).forall₂ hrows ?_⟩
  · have := h.lt_numColumns c hc
    simp only [Table.numColumns, htys, length_append] at this ⊢
    omega
  · rintro r hr s hs _ _ ⟨v, rfl⟩ ⟨w, rfl⟩ hrs
    exact (agree_append (h.lt_length (hsub.subset hr)) (h.lt_length (hsub.subset hs))).1 hrs

lemma eq_of_agree_range {r s : Row V} {n : Nat} (hr : r.length = n) (hs : s.length = n)
    (h : Agree nulls (range n) r s) : r = s := by
  refine ext_getElem (hr.trans hs.symm) fun i hi hi' => ?_
  simpa [Row.col, hi, hi'] using (h i (by simpa [hr] using hi)).1

/-- All columns together identify a row of a table without repeated rows. -/
lemma isKey_range (h : out.rows.Nodup) : IsKey nulls out (range out.numColumns) :=
  ⟨by simp, isUnique_of_nodup h fun r hr s hs =>
    eq_of_agree_range (out.length_row r hr) (out.length_row s hs)⟩

section
variable [LinearOrder V]

lemma IsKey.filter (C : Cudf V) (condition : Expr V) {p out : List Nat} (h : IsKey nulls t key)
    (hout : Chooses (p.map some) key out) : IsKey nulls (t.filter C condition p) out :=
  isKey_materialize (h.unique.sublist filter_sublist) hout

lemma IsKey.project (C : Cudf V) {es : List (Expr V)} {out : List Nat} (h : IsKey nulls t key)
    (hout : Chooses (es.map columnIdx?) key out) : IsKey nulls (t.project C es) out :=
  isKey_build_of_chooses (by simp) h.unique hout (by simp) fun r => outputs_project C t.typeOf es r

/-- A join without repetition of left rows. -/
lemma IsKey.join (C : Cudf V) (condition : Expr V) {type : JoinType}
    (htype : type = .leftSemi ∨ type = .leftAnti ∨ type = .single) {p out : List Nat}
    (h : IsKey nulls t key) (right : Table V) (hout : Chooses (p.map some) key out) :
    IsKey nulls (t.join C condition type p right) out := by
  have hrows : IsUnique (Agree nulls key) (joinRows C condition type t right) := by
    rcases htype with rfl | rfl | rfl
    · exact h.unique.sublist filter_sublist
    · exact h.unique.sublist filter_sublist
    · exact h.unique.map fun l hl l' hl' => (agree_append (h.lt_length hl) (h.lt_length hl')).1
  exact isKey_materialize hrows hout

end

/-! ### All operators -/

lemma visitJoin_eq_remapKeys (condition : Expr V) {type : JoinType}
    (htype : type = .leftSemi ∨ type = .leftAnti ∨ type = .single) (p : List Nat) (nLeftCols : Nat)
    (left right : RelationProperties) :
    visitJoin condition type p nLeftCols left right = remapKeys (p.map some) left := by
  rcases htype with rfl | rfl | rfl <;> simp [visitJoin, joinPropagation, remapKeys]

lemma sortKey_range (n : Nat) : sortKey (range n) = range n := by
  rw [sortKey, (pairwise_lt_range.imp le_of_lt).insertionSort_eq]
  exact dedup_eq_self.2 nodup_range

variable {op : RelOp V}

/-- The rule records the keys that are meant. -/
lemma mem_ofKeys_emittedKeys (rule : Rule) (hop : DropsOrRenames op)
    {children : List (Table V × RelationProperties)} {keys : List (List Nat)}
    (hkeys : rule.emittedKeys op (children.map fun c => (some c.1.types, c.2)) = some keys) :
    key ∈ (ofKeys keys).uniqueKeys ↔ Records op children key := by
  rcases children with _ | ⟨⟨t, c⟩, _ | ⟨⟨t', c'⟩, _ | _⟩⟩
  -- one child, then two
  case cons.nil =>
    cases op with
    | project es | filter _ p =>
      obtain rfl := some.inj hkeys
      exact mem_ofKeys_remapKeys
    | fetch _ _ | sort _ _ _ | window _ _ _ _ _ _ _ | write _ _ _ =>
      obtain rfl := some.inj hkeys
      exact mem_ofKeys_uniqueKeys
    | set o => cases o <;> cases hkeys
    | _ => first | exact hop.elim | cases hkeys
  case cons.cons.nil =>
    cases op with
    | join condition type p =>
      have hvis := visitJoin_eq_remapKeys condition hop p t.types.length c c'
      obtain rfl : remapKeys (p.map some) c = keys := hvis.symm.trans (some.inj hkeys)
      exact mem_ofKeys_remapKeys
    | set o =>
      cases o <;> obtain rfl := some.inj hkeys
      case union =>
        simp [visitSet, mem_ofKeys, Records, Table.numColumns, sortKey_range]
      case unionAll => simp [visitSet, mem_ofKeys, Records]
      case intersect => exact mem_ofKeys_uniqueKeys
      case minus => exact mem_ofKeys_uniqueKeys
    | _ => first | exact hop.elim | cases hkeys
  all_goals
    cases op with
    | set o => cases o <;> cases hkeys
    | _ => first | exact hop.elim | cases hkeys

section
variable [LinearOrder V] [AddCommMonoidWithOne V] {db : Database V}
  {R : Aggregation.Reductions V} {C : Cudf V}

variable {children : List (Table V × RelationProperties)}

/-- The keys that are meant are keys of the output. -/
lemma isKey_of_records (hop : DropsOrRenames op) {out : Table V}
    (hout : Produces db R C op (children.map (·.1)) out) (hchs : ∀ c ∈ children, c.2.Hold nulls c.1)
    (hkey : Records op children key) : IsKey nulls out key := by
  rcases children with _ | ⟨⟨t, c⟩, _ | ⟨⟨t', c'⟩, _ | _⟩⟩
  case cons.nil =>
    have hc : c.Hold nulls t := hchs (t, c) (by simp)
    cases op with
    | project es =>
      obtain rfl := hout
      obtain ⟨k, hk, o, hchoice, rfl⟩ := hkey
      exact isKey_sortKey.2 ((hc k hk).project C hchoice)
    | filter condition p =>
      obtain rfl := hout
      obtain ⟨k, hk, o, hchoice, rfl⟩ := hkey
      exact isKey_sortKey.2 ((hc k hk).filter C condition hchoice)
    | fetch offset count =>
      refine (hc key hkey).subperm hout.1 (hout.2 ▸ ?_)
      exact ((take_sublist _ _).trans (drop_sublist _ _)).subperm
    | sort _ _ _ => exact (hc key hkey).subperm hout.1 hout.2.subperm
    | write _ _ _ => exact (hc key hkey).subperm hout.1 hout.2
    | window _ _ _ _ _ _ _ =>
      obtain ⟨⟨type, htys⟩, rows, hsub, hrows⟩ := hout
      exact (hc key hkey).window htys hsub hrows
    | set o => cases o <;> exact False.elim hout
    | _ => first | exact hop.elim | exact False.elim hout
  case cons.cons.nil =>
    have hc : c.Hold nulls t := hchs (t, c) (by simp)
    cases op with
    | join condition type p =>
      obtain rfl := hout
      obtain ⟨k, hk, o, hchoice, rfl⟩ := hkey
      exact isKey_sortKey.2 ((hc k hk).join C condition hop t' hchoice)
    | set o =>
      cases o with
      | union =>
        obtain ⟨-, rfl⟩ := hkey
        have hnumColumns : t.numColumns = out.numColumns := by simp [Table.numColumns, hout.1]
        exact hnumColumns ▸ isKey_range hout.2.1
      | unionAll => exact False.elim hkey
      | intersect | minus => exact (hc key hkey).subperm hout.1 hout.2.1
    | _ => first | exact hop.elim | exact False.elim hout
  all_goals
    cases op with
    | set o => cases o <;> exact False.elim hout
    | _ => first | exact hop.elim | exact False.elim hout

lemma exists_emittedKeys (rule : Rule) (hop : DropsOrRenames op) {out : Table V}
    (hout : Produces db R C op (children.map (·.1)) out) :
    ∃ keys, rule.emittedKeys op (children.map fun c => (some c.1.types, c.2)) = some keys := by
  rcases children with _ | ⟨⟨t, c⟩, _ | ⟨⟨t', c'⟩, _ | _⟩⟩ <;> cases op with
  | set o => cases o <;> first | exact False.elim hout | exact ⟨_, rfl⟩
  | _ => first | exact ⟨_, rfl⟩ | exact hop.elim | exact False.elim hout

/-- **Keys through operators that drop, reorder and rename.** Every recorded key is a key of the
output, and the recorded keys are the choices of one output for each column of a key of the
input. -/
theorem hold_emittedKeys (rule : Rule) {op : RelOp V} (hop : DropsOrRenames op)
    {children : List (Table V × RelationProperties)} {out : Table V}
    (hout : Produces db R C op (children.map (·.1)) out)
    (hchildren : ∀ c ∈ children, c.2.Hold nulls c.1) :
    ∃ keys, rule.emittedKeys op (children.map fun c => (some c.1.types, c.2)) = some keys ∧
      (∀ key, key ∈ (ofKeys keys).uniqueKeys ↔ Records op children key) ∧
      (ofKeys keys).Hold nulls out := by
  obtain ⟨keys, hkeys⟩ := exists_emittedKeys rule hop hout
  have hrecords : ∀ key, key ∈ (ofKeys keys).uniqueKeys ↔
      Records op children key := fun key => mem_ofKeys_emittedKeys rule hop hkeys
  exact ⟨keys, hkeys, hrecords, fun key hkey =>
    isKey_of_records hop hout hchildren ((hrecords key).1 hkey)⟩

end

def partsupp : Table Int where
  types := [.int64, .int64]
  rows := [[some 1, some 1], [some 1, some 2], [some 2, some 1]]
  length_row := by decide
  rows_of_no_columns := by decide

def Database.empty : Database Int where
  table _ := ⟨[], [], by simp, by simp⟩
  columnNames _ := []
  length_columnNames _ := rfl

def Rule.plain : Rule where
  catalogKeys _ := []
  targetType t _ := t
  beyond _ := .empty

/-- `SELECT partkey, partkey, suppkey`. -/
def selectPartkeyTwice : RelOp Int :=
  .project [.columnReference 0, .columnReference 0, .columnReference 1]

theorem hold_emittedKeys_partsupp : ∃ keys, Rule.plain.emittedKeys selectPartkeyTwice
        [(some partsupp.types, .ofKeys [[0, 1]])] = some keys ∧
      (∀ key, key ∈ (ofKeys keys).uniqueKeys ↔
        Records selectPartkeyTwice [(partsupp, .ofKeys [[0, 1]])] key) ∧
      (ofKeys keys).Hold .equal (partsupp.project .integers
        [.columnReference 0, .columnReference 0, .columnReference 1]) := by
  have hout : Produces .empty .integers .integers selectPartkeyTwice [partsupp]
    (partsupp.project .integers [.columnReference 0, .columnReference 0, .columnReference 1]) := rfl
  have hop : DropsOrRenames selectPartkeyTwice := trivial
  have hchildren : ∀ c ∈ [(partsupp, ofKeys [[0, 1]])],
      c.2.Hold .equal c.1 := by decide
  exact hold_emittedKeys .plain hop hout hchildren

end Gqe.Uniqueness
