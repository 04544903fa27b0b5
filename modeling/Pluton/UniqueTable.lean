-- SUMMARY: Tables with unique columns, and the insert that refuses a repeated value.
import Pluton.Table

/-!
# Tables with unique columns

`PRIMARY KEY` and `UNIQUE` columns of a SQL table: no two rows have the same value in
one of them, and a null clashes with nothing. The constraint is part of the table, so an
`INSERT` that would break it has no result, and an `UPDATE` of other columns keeps it.
-/
namespace Table

variable {ρ κ : Type} {columns : List (ρ → Option κ)}

variable {rows : List ρ} {cond : ρ → Bool} {set : ρ → ρ} {row : ρ}

/-- The row that `RETURNING` answers first was there and met the condition. -/
theorem of_head?_returning (h : (returning rows cond set).head? = some row) :
    ∃ old ∈ rows, cond old = true ∧ set old = row :=
  mem_returning.mp (List.mem_of_mem_head? h)

theorem update_of_head?_returning (h : (returning rows cond set).head? = none) :
    update rows cond set = rows := by
  refine update_eq_self fun row hrow => ?_
  rw [← Bool.not_eq_true]
  intro hcond
  have hmem : set row ∈ returning rows cond set := mem_returning.mpr ⟨row, hrow, hcond, rfl⟩
  rw [List.head?_eq_none_iff.mp h] at hmem
  exact List.not_mem_nil hmem

/-- How many rows are in a class after an update that moves its rows into the class. -/
theorem countP_update {p : ρ → Bool}
    (h : ∀ row ∈ rows, cond row = true → p row = false ∧ p (set row) = true) :
    (update rows cond set).countP p = rows.countP p + rows.countP cond := by
  induction rows with
  | nil => rfl
  | cons first rest ih =>
    rw [update_cons, List.countP_cons, List.countP_cons, List.countP_cons,
      ih fun row hrow => h row (List.mem_cons_of_mem first hrow)]
    cases hcond : cond first with
    | false => simp only [Bool.false_eq_true, if_false]; omega
    | true =>
      obtain ⟨hbefore, hafter⟩ := h first List.mem_cons_self hcond
      simp only [if_true, hbefore, hafter, Bool.false_eq_true, if_false]
      omega

/-- The rows of a table, distinct in every unique column. -/
structure Unique (columns : List (ρ → Option κ)) where
  rows : List ρ
  distinct : ∀ column ∈ columns, (rows.filterMap column).Nodup

namespace Unique

variable {t : Unique columns} {row row' : ρ} {column : ρ → Option κ} {value : κ}

/-- A table without rows. -/
def empty (columns : List (ρ → Option κ)) : Unique columns := ⟨[], fun _ _ => List.nodup_nil⟩

theorem eq_of_column (t : Unique columns) (hcolumn : column ∈ columns) (hrow : row ∈ t.rows)
    (hrow' : row' ∈ t.rows) (hvalue : column row = some value)
    (hvalue' : column row' = some value) :
    row = row' := by
  have hdistinct := t.distinct column hcolumn
  revert hrow hrow' hdistinct
  induction t.rows with
  | nil =>
    intro hrow
    exact absurd hrow List.not_mem_nil
  | cons first rest ih =>
    intro hrow hrow' hdistinct
    have htail : (rest.filterMap column).Nodup :=
      List.Nodup.sublist
        (List.Sublist.filterMap column (List.sublist_cons_self first rest)) hdistinct
    -- a second row with the value would repeat it behind the first
    have hfresh : ∀ {other : ρ}, column first = some value → other ∈ rest →
        column other ≠ some value := by
      intro other hfirst hother hsame
      rw [List.filterMap_cons_some hfirst, List.nodup_cons] at hdistinct
      exact hdistinct.1 (List.mem_filterMap.mpr ⟨other, hother, hsame⟩)
    cases List.mem_cons.mp hrow with
    | inl hfirst =>
      cases List.mem_cons.mp hrow' with
      | inl hfirst' => rw [hfirst, hfirst']
      | inr hrest' => exact absurd hvalue' (hfresh (hfirst ▸ hvalue) hrest')
    | inr hrest =>
      cases List.mem_cons.mp hrow' with
      | inl hfirst' => exact absurd hvalue (hfresh (hfirst' ▸ hvalue') hrest)
      | inr hrest' => exact ih hrest hrest' htail

/-! ## Statements -/

/-- The values of the unique columns of `row` are new to the table. -/
def Admits (t : Unique columns) (row : ρ) : Prop :=
  ∀ column ∈ columns, ∀ value ∈ column row, value ∉ t.rows.filterMap column

instance [DecidableEq κ] (t : Unique columns) (row : ρ) : Decidable (t.Admits row) :=
  inferInstanceAs (Decidable (∀ column ∈ columns, ∀ value ∈ column row,
    value ∉ t.rows.filterMap column))

/-- `INSERT`; a repeated value of a unique column refuses it. -/
def insert? [DecidableEq κ] (t : Unique columns) (row : ρ) : Option (Unique columns) :=
  if hnew : t.Admits row then
    some {
      rows := t.rows ++ [row]
      distinct := fun column hcolumn => by
        rw [List.filterMap_append]
        refine List.Nodup.append (t.distinct column hcolumn) ?_ ?_
        · cases hvalue : column row with
          | none => simp [hvalue]
          | some value => simp [hvalue]
        · intro value hold hadded
          obtain ⟨added, hmem, hvalue⟩ := List.mem_filterMap.mp hadded
          rw [List.mem_singleton.mp hmem] at hvalue
          exact hnew column hcolumn value hvalue hold }
  else none

theorem rows_insert? [DecidableEq κ] {t' : Unique columns} (h : t.insert? row = some t') :
    t'.rows = t.rows ++ [row] := by
  unfold insert? at h
  split at h
  · rw [← Option.some.inj h]
  · cases h

/-- `UPDATE` of columns that are not unique. -/
def update (t : Unique columns) (cond : ρ → Bool) (set : ρ → ρ)
    (hset : ∀ column ∈ columns, ∀ row, column (set row) = column row) : Unique columns where
  rows := Table.update t.rows cond set
  distinct column hcolumn := by
    have hsame : (Table.update t.rows cond set).filterMap column = t.rows.filterMap column := by
      unfold Table.update
      rw [List.filterMap_map]
      refine List.filterMap_congr fun row _ => ?_
      rw [Function.comp_apply]
      split
      · exact hset column hcolumn row
      · rfl
    rw [hsame]
    exact t.distinct column hcolumn

/-- A condition that fixes the value of a unique column holds of one row at most. -/
theorem countP_eq_one {cond : ρ → Bool} (t : Unique columns) (hcolumn : column ∈ columns)
    (hcond : ∀ r, cond r = true → column r = some value) (hrow : row ∈ t.rows)
    (h : cond row = true) :
    t.rows.countP cond = 1 := by
  have hvalues : (t.rows.filter cond).filterMap column =
      List.replicate (t.rows.countP cond) value := by
    rw [List.countP_eq_length_filter]
    generalize hmatched : t.rows.filter cond = matched
    have hall : ∀ r ∈ matched, column r = some value := by
      rintro r hr
      rw [← hmatched] at hr
      exact hcond r (List.mem_filter.mp hr).2
    clear hmatched
    induction matched with
    | nil => rfl
    | cons first rest ih =>
      rw [List.filterMap_cons_some (hall first List.mem_cons_self), List.length_cons,
        List.replicate_succ, ih fun r hr => hall r (List.mem_cons_of_mem first hr)]
  have hdistinct : ((t.rows.filter cond).filterMap column).Nodup :=
    (t.distinct column hcolumn).sublist (List.filter_sublist.filterMap column)
  rw [hvalues, List.nodup_replicate] at hdistinct
  have hpos : 0 < t.rows.countP cond := List.countP_pos_iff.mpr ⟨row, hrow, h⟩
  omega

end Unique

end Table
