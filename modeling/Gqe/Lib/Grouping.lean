import Mathlib.Data.List.Dedup
import Mathlib.Data.List.Perm.Basic
import Mathlib.Data.List.ReduceOption
import Mathlib.Tactic.Lemma

/-!
# Grouping

Rows are grouped by a key, and each group is turned into one value. The order of the groups is up
to a function `order`, which may permute the list of keys. Grouping parts of a list and then the
results of all parts gives what grouping the whole list gives.
-/

namespace Grouping

open List

variable {ρ κ α β : Type*} [DecidableEq κ]

/-- The rows with a given key. -/
def group (key : ρ → κ) (rows : List ρ) (k : κ) : List ρ := rows.filter fun r => key r = k

/-- The values of all groups. -/
def aggregate (order : List κ → List κ) (key : ρ → κ) (f : κ → List ρ → α) (rows : List ρ) :
    List α :=
  (order (rows.map key).dedup).map fun k => f k (group key rows k)

variable {rows : List ρ}

lemma group_eq_nil {key : ρ → κ} {k : κ} : group key rows k = [] ↔ k ∉ rows.map key := by
  simp [group]

lemma group_flatten (key : ρ → κ) (parts : List (List ρ)) (k : κ) :
    group key parts.flatten k = (parts.map fun rows => group key rows k).flatten := by
  simp [group]

/-- The groups of a list with one entry for each of the keys. -/
lemma group_map {keys : List κ} (hkeys : keys.Nodup) {e : κ → α} {key : α → κ}
    (he : ∀ k ∈ keys, key (e k) = k) (k : κ) :
    group key (keys.map e) k = if k ∈ keys then [e k] else [] := by
  induction keys with
  | nil => rfl
  | cons a keys ih =>
    obtain ⟨ha, hkeys⟩ := nodup_cons.1 hkeys
    have ih := ih hkeys fun k hk => he k (by simp [hk])
    have hea : key (e a) = a := he a (by simp)
    unfold group at ih ⊢
    by_cases hka : k = a
    · subst hka
      simp [ih, ha, hea]
    · simp [ih, hea, hka, Ne.symm hka]

lemma group_of_nodup {key : ρ → κ} (hkeys : (rows.map key).Nodup) {r : ρ}
    (hr : r ∈ rows) : group key rows (key r) = [r] := by
  induction rows with
  | nil => cases hr
  | cons a rows ih =>
    rw [map_cons, nodup_cons] at hkeys
    rw [group] at ih ⊢
    rcases mem_cons.1 hr with rfl | hr
    · have hnil : rows.filter (fun b => key b = key r) = [] := group_eq_nil.2 hkeys.1
      rw [filter_cons_of_pos (by simp), hnil]
    · have hne : key a ≠ key r := fun h => hkeys.1 (h ▸ mem_map_of_mem hr)
      rw [filter_cons_of_neg (by simpa using hne), ih hkeys.2 hr]

section Order
variable {order : List κ → List κ} (horder : ∀ l, (order l).Perm l)
include horder

lemma mem_order_dedup {l : List κ} {k : κ} : k ∈ order l.dedup ↔ k ∈ l := by
  rw [(horder _).mem_iff, mem_dedup]

lemma nodup_order_dedup (l : List κ) : (order l.dedup).Nodup :=
  (horder _).nodup_iff.2 l.nodup_dedup

variable {key : ρ → κ} {f : κ → List ρ → α} {key' : α → κ}

section

variable (hkey : ∀ r rows, key' (f (key r) rows) = key r) (parts : List (List ρ)) (k : κ)
include hkey parts k

/-- The entries with a given key among the values of all groups of all parts. -/
lemma group_flatMap_aggregate :
    group key' (parts.flatMap (aggregate order key f)) k =
      ((parts.map fun rows => group key rows k).filter (· ≠ [])).map (f k) := by
  induction parts with
  | nil => rfl
  | cons rows parts ih =>
    have hhead : group key' (aggregate order key f rows) k =
        if k ∈ rows.map key then [f k (group key rows k)] else [] := by
      rw [aggregate, group_map (nodup_order_dedup horder _)]
      · simp [mem_order_dedup horder]
      · intro k hk
        obtain ⟨r, -, rfl⟩ := mem_map.1 ((mem_order_dedup horder).1 hk)
        exact hkey r _
    have happ : group key' ((rows :: parts).flatMap (aggregate order key f)) k =
        group key' (aggregate order key f rows) k ++
          group key' (parts.flatMap (aggregate order key f)) k := by
      simp [group]
    rw [happ, hhead, ih]
    by_cases hk : k ∈ rows.map key
    · have hne : group key rows k ≠ [] := fun h => group_eq_nil.1 h hk
      simp [hk, hne]
    · simp [hk, group_eq_nil.2 hk]

lemma mem_keys_flatMap_aggregate :
    k ∈ (parts.flatMap (aggregate order key f)).map key' ↔ k ∈ parts.flatten.map key := by
  rw [← not_iff_not, ← group_eq_nil, ← group_eq_nil, group_flatMap_aggregate horder hkey,
    group_flatten]
  simp

end

variable {order' : List κ → List κ}

/-- **Grouping in two phases.** If, on the nonempty parts of a group, the value `g` of their values
`f` is the value `h` of the group, then grouping the parts and then their values is grouping the
whole. -/
theorem aggregate_flatMap_perm (horder' : ∀ l, (order' l).Perm l)
    (hkey : ∀ r rows, key' (f (key r) rows) = key r) {g : κ → List α → β} {h : κ → List ρ → β}
    (hg : ∀ r parts, parts ≠ [] → g (key r) (parts.map (f (key r))) = h (key r) parts.flatten)
    (parts : List (List ρ)) : (aggregate order key' g (parts.flatMap (aggregate order key f))).Perm
      (aggregate order' key h parts.flatten) := by
  have hkeys : (order ((parts.flatMap (aggregate order key f)).map key').dedup).Perm
      (order' (parts.flatten.map key).dedup) := by
    refine (perm_ext_iff_of_nodup (nodup_order_dedup horder _)
      (nodup_order_dedup horder' _)).2 fun k => ?_
    rw [mem_order_dedup horder, mem_order_dedup horder', mem_keys_flatMap_aggregate horder hkey]
  refine (hkeys.map _).trans (List.Perm.of_eq ?_)
  refine map_congr_left fun k hk => ?_
  rw [mem_order_dedup horder'] at hk
  have hne : (parts.map fun rows => group key rows k).filter (· ≠ []) ≠ [] := by
    intro hnil
    refine group_eq_nil.1 ?_ hk
    rw [group_flatten]
    simpa using hnil
  obtain ⟨r, -, rfl⟩ := mem_map.1 hk
  -- parts without the key have no entry and do not matter for the whole
  rw [group_flatMap_aggregate horder hkey, hg r _ hne, group_flatten, flatten_filter_ne_nil]

/-- Groups do not depend on the order of the rows if their values do not. -/
lemma aggregate_perm (horder' : ∀ l, (order' l).Perm l) (hf : ∀ k l l', l.Perm l' → f k l = f k l')
    {rows' : List ρ} (h : rows.Perm rows') :
    (aggregate order key f rows).Perm (aggregate order' key f rows') := by
  have hkeys : (order (rows.map key).dedup).Perm (order' (rows'.map key).dedup) :=
    (horder _).trans ((h.map key).dedup.trans (horder' _).symm)
  refine (hkeys.map _).trans (List.Perm.of_eq ?_)
  exact map_congr_left fun k _ => hf k _ _ (h.filter _)

end Order

/-! ### Reductions -/

/-- A function that combines the values of a list by `op`, and has no value for the empty list. -/
structure IsReduction (op : α → α → α) (F : List α → Option α) : Prop where
  nil : F [] = none
  singleton : ∀ a, F [a] = some a
  append : ∀ l l', F (l ++ l') = (F l).merge op (F l')

namespace IsReduction
variable {op : α → α → α} {F : List α → Option α}

lemma of_cons [Std.Associative op] (nil : F [] = none)
    (cons : ∀ a l, F (a :: l) = (some a).merge op (F l)) : IsReduction op F where
  nil := nil
  singleton a := by simp [cons, nil]
  append l l' := by
    have hassoc : ∀ a b c, op (op a b) c = op a (op b c) := Std.Associative.assoc
    induction l with
    | nil => simp [nil]
    | cons a l ih =>
      rw [cons_append, cons, cons, ih]
      cases F l <;> cases F l' <;> simp [hassoc]

variable (hF : IsReduction op F)
include hF

lemma cons (a : α) (l : List α) : F (a :: l) = (some a).merge op (F l) := by
  rw [← hF.singleton a, ← hF.append, singleton_append]

/-- Reducing the parts and then the values the parts have is reducing the whole. -/
lemma reduceOption_map (Ls : List (List (Option α))) :
    F (Ls.map fun l => F l.reduceOption).reduceOption = F Ls.flatten.reduceOption := by
  induction Ls with
  | nil => rfl
  | cons l Ls ih =>
    rw [flatten_cons, reduceOption_append, hF.append, ← ih, map_cons]
    cases F l.reduceOption with
    | none => simp
    | some a => rw [reduceOption_cons_of_some, hF.cons]

lemma foldl_merge [Std.Associative op] (l : List (Option α)) (a : Option α) :
    l.foldl (Option.merge op) a = a.merge op (F l.reduceOption) := by
  induction l generalizing a with
  | nil => simp [hF.nil]
  | cons v l ih =>
    have hassoc : (a.merge op v).merge op (F l.reduceOption) =
        a.merge op (v.merge op (F l.reduceOption)) := Std.Associative.assoc _ _ _
    rw [foldl_cons, ih, hassoc]
    cases v with
    | none => simp
    | some v => rw [reduceOption_cons_of_some, hF.cons]

lemma perm [Std.Commutative op] [Std.Associative op] {l l' : List α} (h : l.Perm l') :
    F l = F l' := by
  induction h with
  | nil => rfl
  | cons a _ ih => rw [hF.cons, hF.cons, ih]
  | swap a b l =>
    have hassoc : ∀ a b c, op (op a b) c = op a (op b c) := Std.Associative.assoc
    have hcomm : op a b = op b a := Std.Commutative.comm a b
    simp only [hF.cons]
    cases F l with
    | none => simp [hcomm]
    | some c => simp [← hassoc, hcomm]
  | trans _ _ ih ih' => exact ih.trans ih'

end IsReduction

end Grouping
