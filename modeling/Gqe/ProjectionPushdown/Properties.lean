import Gqe.ProjectionPushdown.Basic

/-!
# Correctness of projection pushdown

The rule keeps the result of a plan unless a project relation without any column reference ends
up above a filter or a join that has rows: the child is then left without columns, and a table
without columns has no rows.
-/

namespace Gqe.ProjectionPushdown

open List Table

variable {V : Type*}

/-! ### Renumbering -/

lemma lookup_zipIdx_eq_none {l : List Nat} {c : Nat} (hc : c ∉ l) (k : Nat)
    (p : Nat × Nat → Bool) : ((l.zipIdx k).filter p).lookup c = none := by
  rw [lookup_eq_none_iff]
  rintro ⟨idx, i⟩ h
  have hmem := mem_of_mem_filter h
  rw [bne_iff_ne]
  rintro rfl
  exact hc (fst_mem_of_mem_zipIdx hmem)

lemma lookup_zipIdx_filter {l : List Nat} (hl : l.Nodup) {c : Nat} (hc : c ∈ l) (k : Nat) :
    (((l.zipIdx k).filter fun (idx, i) => i ≠ idx).lookup c).getD c = l.idxOf c + k := by
  induction l generalizing k with
  | nil => simp at hc
  | cons a l ih =>
    obtain ⟨ha, hl⟩ := nodup_cons.1 hl
    rw [zipIdx_cons]
    by_cases hca : c = a
    · -- a column that stays in its place is not in the map
      subst hca
      by_cases hk : k = c
      · simp [hk, lookup_zipIdx_eq_none ha]
      · simp [hk]
    · have hc := (mem_cons.1 hc).resolve_left hca
      have hcons : (((a, k) :: l.zipIdx (k + 1)).filter fun (idx, i) => i ≠ idx).lookup c =
          ((l.zipIdx (k + 1)).filter fun (idx, i) => i ≠ idx).lookup c := by
        by_cases hk : k = a
        · simp [hk]
        · simp [hk, lookup_cons, beq_eq_false_iff_ne.2 hca]
      rw [hcons, ih hl hc, idxOf_cons_ne _ (Ne.symm hca)]
      omega

lemma renumber_eq_idxOf {required : List Nat} (hnd : required.Nodup) {c : Nat}
    (hc : c ∈ required) : renumber required c = required.idxOf c :=
  lookup_zipIdx_filter hnd hc 0

/-! ### Tables with fewer columns -/

lemma col_select (r : Row V) (indices : List Nat) {i : Nat} (hi : i < indices.length) :
    (r.select indices).col i = r.col (indices.getD i 0) := by
  simp [Row.select, Row.col, List.getElem?_eq_getElem hi]

variable (C : Cudf V) (τ : Nat → DataType) (rows : List (Row V))

lemma typeOf_materialize (indices : List Nat) {i : Nat} (hi : i < indices.length) :
    (materialize τ rows indices).typeOf i = τ (indices.getD i 0) := by
  simp [materialize, typeOf, List.getElem?_eq_getElem hi]

lemma rows_materialize {indices : List Nat}
    (h : indices ≠ []) : (materialize τ rows indices).rows = rows.map (·.select indices) := by
  simp [materialize, build, h]

@[simp] lemma rows_materialize_nil : (materialize τ rows []).rows = [] := by
  simp [materialize, build]

variable [LinearOrder V]

lemma types_project (es : List (Expr V)) (t : Table V) :
    (t.project C es).types = es.map fun e => (e.dataType t.typeOf).getD .empty := rfl

variable {es : List (Expr V)}

lemma rows_project (hes : es ≠ []) (t : Table V) :
    (t.project C es).rows = t.rows.map fun r => es.map (·.eval C t.typeOf r) := by
  simp [project, build, hes]

omit [LinearOrder V] in
lemma eq_map_reference : ∀ {es : List (Expr V)}, isAllColRef es →
    es = (requiredIndicesFromCrExpressions es).map .columnReference
  | [], _ => rfl
  | .columnReference i :: es, h => by
    have h : isAllColRef es := by simpa [isAllColRef, isColumnReference] using h
    simpa using eq_map_reference h

@[simp] lemma rows_project_nil (t : Table V) : (t.project C []).rows = [] := by
  simp [project, build]

/-- A projection to columns is the table with these columns only. -/
lemma project_columnReferences
    (indices required : List Nat) (hlt : ∀ i ∈ required, i < indices.length) :
    (materialize τ rows indices).project C (required.map .columnReference) =
      .materialize τ rows (getUpdatedProjectionIndices indices required) := by
  refine Table.ext ?_ ?_
  · simp only [types_project, materialize, getUpdatedProjectionIndices, map_map]
    refine map_congr_left fun i hi => ?_
    exact typeOf_materialize τ rows indices (hlt i hi)
  · cases hr : required with
    | nil => simp
    | cons j js =>
      have hidxs : indices ≠ [] := by
        rintro rfl
        simpa using hlt j (by simp [hr])
      rw [← hr, rows_project C (by simp [hr]), rows_materialize τ rows hidxs,
        rows_materialize τ rows (by simp [hr]), map_map]
      refine map_congr_left fun r _ => ?_
      simp only [map_map, Row.select, getUpdatedProjectionIndices]
      exact map_congr_left fun i hi => col_select r indices (hlt i hi)

variable {indices required : List Nat}

lemma getD_updatedIndices (hnd : required.Nodup) {i : Nat} (hi : i ∈ required) :
    (getUpdatedProjectionIndices indices required).getD (renumber required i) 0 =
      indices.getD i 0 := by
  have hlt := idxOf_lt_length_iff.2 hi
  rw [renumber_eq_idxOf hnd hi]
  simp [hlt]

/-- A projection only needs the columns it refers to, and one column if there are none. -/
lemma project_rewriteProjectRelation
    (hnd : required.Nodup) (hreq : ∀ e ∈ es, ∀ i ∈ e.columns, i ∈ required)
    (hlt : ∀ i ∈ required, i < indices.length) (hne : required ≠ []) :
    (materialize τ rows (getUpdatedProjectionIndices indices required)).project C
        (rewriteProjectRelation required es) = (materialize τ rows indices).project C es := by
  have hlen : (getUpdatedProjectionIndices indices required).length = required.length := by
    simp
  have hlt' {i} (hi : i ∈ required) : renumber required i < required.length := by
    rw [renumber_eq_idxOf hnd hi]
    exact idxOf_lt_length_iff.2 hi
  have htype {i} (hi : i ∈ required) :
      (materialize τ rows (getUpdatedProjectionIndices indices required)).typeOf
        (renumber required i) = (materialize τ rows indices).typeOf i := by
    rw [typeOf_materialize _ _ _ (hlen ▸ hlt' hi), typeOf_materialize _ _ _ (hlt i hi),
      getD_updatedIndices hnd hi]
  refine Table.ext ?_ ?_
  · simp only [types_project, rewriteProjectRelation, map_map]
    refine map_congr_left fun e he => ?_
    rw [Function.comp_apply, Expr.dataType_rename _ _ _ e fun i hi => htype (hreq e he i hi)]
  · cases hes : es with
    | nil => simp
    | cons e es' =>
      obtain ⟨j, hj⟩ := exists_mem_of_ne_nil required hne
      have hidxs : indices ≠ [] := by
        rintro rfl
        simpa using hlt j hj
      rw [← hes, rows_project C (by simp [hes]),
        rows_project C (by simp [hes]), rows_materialize τ rows hidxs,
        rows_materialize τ rows (by simpa using hne), map_map,
        map_map]
      refine map_congr_left fun r _ => ?_
      simp only [rewriteProjectRelation, map_map]
      refine map_congr_left fun e he => ?_
      refine Expr.eval_rename C _ _ _ _ _ e (fun i hi => htype (hreq e he i hi)) fun i hi => ?_
      have hi := hreq e he i hi
      rw [col_select _ _ (hlen ▸ hlt' hi), col_select _ _ (hlt i hi),
        getD_updatedIndices hnd hi]

/-- Projections without column references of two tables without rows are the same. -/
lemma project_of_no_columns (required : List Nat)
    (hes : ∀ e ∈ es, e.columns = []) {t t' : Table V} (ht : t.rows = []) (ht' : t'.rows = []) :
    t'.project C (rewriteProjectRelation required es) = t.project C es := by
  refine Table.ext ?_ ?_
  · simp only [types_project, rewriteProjectRelation, map_map]
    refine map_congr_left fun e he => ?_
    rw [Function.comp_apply, Expr.dataType_rename _ t.typeOf t'.typeOf e (by simp [hes e he])]
  · simp [project, build, ht, ht']

end Gqe.ProjectionPushdown
