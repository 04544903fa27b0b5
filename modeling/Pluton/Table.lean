-- SUMMARY: Tables of rows with the conditional update and the first-row query of a SQL store.
import Mathlib.Data.List.Basic
import Mathlib.Data.List.Nodup
import Mathlib.Order.Defs.Unbundled

/-!
# Tables

A table is the list of its rows in scan order. `update` is
`UPDATE .. SET .. WHERE ..`, `returning` the rows that its `RETURNING` clause
yields. Rows never move, so the position of a row is its identity over a run.
-/
namespace Table

variable {ρ κ : Type} {key : ρ → κ} {R : ρ → ρ → Prop} {p : ρ → Bool} {f : ρ → ρ}

/-- `UPDATE .. SET set WHERE cond`. -/
def update (rows : List ρ) (cond : ρ → Bool) (set : ρ → ρ) : List ρ :=
  rows.map fun row => if cond row then set row else row

/-- The rows an `update` yields by `RETURNING`. -/
def returning (rows : List ρ) (cond : ρ → Bool) (set : ρ → ρ) : List ρ :=
  (rows.filter cond).map set

/-- The first row in ascending order of `key` among those that satisfy `cond`;
rows with equal keys keep their scan order. -/
def firstBy (key : ρ → Nat) (cond : ρ → Bool) : List ρ → Option ρ
  | [] => none
  | row :: rows =>
    match firstBy key cond rows with
    | none => if cond row then some row else none
    | some best => if cond row ∧ key row ≤ key best then some row else some best

variable {rows : List ρ} {cond : ρ → Bool} {set : ρ → ρ} {k : Nat} {row : ρ}

@[simp] theorem length_update : (update rows cond set).length = rows.length := by
  simp [update]

theorem update_cons {first : ρ} :
    update (first :: rows) cond set =
      (if cond first then set first else first) :: update rows cond set := rfl

theorem mem_update :
    row ∈ update rows cond set ↔ ∃ old ∈ rows, (if cond old then set old else old) = row := by
  simp [update]

theorem mem_returning :
    row ∈ returning rows cond set ↔ ∃ old ∈ rows, cond old ∧ set old = row := by
  simp [returning, and_assoc]

/-- A conditional update that no row satisfies changes nothing. -/
theorem update_eq_self (h : ∀ row ∈ rows, cond row = false) : update rows cond set = rows := by
  unfold update
  conv_rhs => rw [← List.map_id rows]
  apply List.map_congr_left
  intro row hrow
  simp [h row hrow]

/-- An update that leaves the key column alone keeps the keys. -/
theorem map_update (hset : ∀ row, key (set row) = key row) :
    (update rows cond set).map key = rows.map key := by
  simp only [update, List.map_map]
  apply List.map_congr_left
  intro row _
  simp only [Function.comp_apply]
  split
  · exact hset row
  · rfl

theorem nodup_update (hset : ∀ row, key (set row) = key row) (h : (rows.map key).Nodup) :
    ((update rows cond set).map key).Nodup := by
  rw [map_update hset]
  exact h

/-- An update that puts no row into a class keeps the class as small as it was. -/
theorem length_filter_update_le
    (hset : ∀ row ∈ rows, cond row = true → p (set row) = true → p row = true) :
    ((update rows cond set).filter p).length ≤ (rows.filter p).length := by
  induction rows with
  | nil => exact Nat.le_refl 0
  | cons row rows ih =>
      have hrest := ih fun other hother => hset other (List.mem_cons_of_mem row hother)
      have hfirst : p (if cond row then set row else row) = true → p row = true := by
        split
        · next hcond => exact hset row List.mem_cons_self hcond
        · exact id
      rw [update_cons, List.filter_cons, List.filter_cons]
      cases hp : p (if cond row then set row else row) with
      | true =>
          rw [hfirst hp]
          simpa using hrest
      | false =>
          cases p row with
          | true => simpa using Nat.le_succ_of_le hrest
          | false => simpa using hrest

/-- An update of the row with one key puts at most that row into a class. -/
theorem length_filter_update_key_le {k : κ} (hnodup : (rows.map key).Nodup)
    (hcond : ∀ row ∈ rows, cond row = true → key row = k) :
    ((update rows cond set).filter p).length ≤ (rows.filter p).length + 1 := by
  induction rows with
  | nil => exact Nat.zero_le 1
  | cons row rows ih =>
      rw [List.map_cons, List.nodup_cons] at hnodup
      have hcond' : ∀ other ∈ rows, cond other = true → key other = k := fun other hother =>
        hcond other (List.mem_cons_of_mem row hother)
      rw [update_cons, List.filter_cons, List.filter_cons]
      by_cases hrow : cond row = true
      · -- No other row has the key.
        have hothers : ∀ other ∈ rows, cond other = false := by
          intro other hother
          cases hother' : cond other with
          | false => rfl
          | true =>
              have hsame :=
                (hcond' other hother hother').trans (hcond row List.mem_cons_self hrow).symm
              exact absurd (hsame ▸ List.mem_map_of_mem hother) hnodup.1
        rw [update_eq_self hothers]
        cases p (if cond row then set row else row) <;> cases p row <;> simp
        omega
      · have hrest := ih hnodup.2 hcond'
        rw [if_neg hrow]
        cases p row with
        | true => simpa using hrest
        | false => simpa using hrest

/-- Into a class that was empty the update puts at most one row. -/
theorem length_filter_update_key {k : κ} (hnodup : (rows.map key).Nodup)
    (hcond : ∀ row ∈ rows, cond row = true → key row = k) (hempty : ∀ row ∈ rows, p row = false) :
    ((update rows cond set).filter p).length ≤ 1 := by
  have hnil : rows.filter p = [] :=
    List.filter_eq_nil_iff.mpr fun row hrow => by simp [hempty row hrow]
  have hle : ((update rows cond set).filter p).length ≤ (rows.filter p).length + 1 :=
    length_filter_update_key_le hnodup hcond
  rw [hnil] at hle
  exact hle

theorem mem_of_firstBy {key : ρ → Nat} (h : firstBy key cond rows = some row) :
    row ∈ rows ∧ cond row := by
  induction rows generalizing row with
  | nil => simp [firstBy] at h
  | cons r rows ih =>
      simp only [firstBy] at h
      split at h
      · split at h
        · rename_i hr
          cases h
          exact ⟨List.mem_cons_self, hr⟩
        · cases h
      · rename_i best hbest
        split at h
        · rename_i hr
          cases h
          exact ⟨List.mem_cons_self, hr.1⟩
        · cases h
          exact ⟨List.mem_cons_of_mem _ (ih hbest).1, (ih hbest).2⟩

/-- With a unique key, two positions that hold the same key are the same. -/
theorem position_unique (hnodup : (rows.map key).Nodup) {j : Nat} {row' : ρ}
    (hk : rows[k]? = some row) (hj : rows[j]? = some row') (heq : key row = key row') : k = j := by
  have hk' : (rows.map key)[k]? = some (key row) := by simp [hk]
  have hj' : (rows.map key)[j]? = some (key row) := by simp [hj, heq]
  have hlt := (List.getElem?_eq_some_iff.mp hk').1
  exact (List.getElem?_inj hlt hnodup).mp (hk'.trans hj'.symm)

/-- A query by a unique key finds the row with that key. -/
theorem find?_key [BEq κ] [LawfulBEq κ] (hnodup : (rows.map key).Nodup) (hrow : row ∈ rows) :
    rows.find? (fun other => key other == key row) = some row := by
  induction rows with
  | nil => cases hrow
  | cons first rest ih =>
      rw [List.map_cons, List.nodup_cons] at hnodup
      rcases List.mem_cons.mp hrow with rfl | hrest
      · simp
      · have hne : key first ≠ key row := fun h => hnodup.1 (h ▸ List.mem_map_of_mem hrest)
        rw [List.find?_cons_of_neg (by simpa using hne)]
        exact ih hnodup.2 hrest

/-! ## The row at a position -/

theorem exists_of_modify {j : Nat} (h : (rows.modify k f)[j]? = some row) :
    ∃ old, rows[j]? = some old ∧ row = if k = j then f old else old := by
  rw [List.getElem?_modify] at h
  obtain ⟨old, hold, heq⟩ := Option.map_eq_some_iff.mp h
  refine ⟨old, hold, ?_⟩
  split at heq
  · next hj => rw [if_pos hj]; exact heq.symm
  · next hj => rw [if_neg hj]; exact heq.symm

/-- How many rows are in a class after one of them has changed. -/
theorem countP_modify (h : rows[k]? = some row) :
    (rows.modify k f).countP p + (if p row then 1 else 0) =
      rows.countP p + if p (f row) then 1 else 0 := by
  induction rows generalizing k with
  | nil => cases h
  | cons first rest ih =>
      cases k with
      | zero =>
          cases h
          simp only [List.modify_zero_cons, List.countP_cons]
          exact Nat.add_right_comm _ _ _
      | succ k =>
          have hrest := ih (k := k) h
          simp only [List.modify_succ_cons, List.countP_cons]
          rw [Nat.add_right_comm, hrest, Nat.add_right_comm]

/-- A change that leaves its row in its class, or outside it, does not change how many there are. -/
theorem countP_modify_eq (h : ∀ row, rows[k]? = some row → p (f row) = p row) :
    (rows.modify k f).countP p = rows.countP p := by
  cases hrow : rows[k]? with
  | none =>
      rw [List.modify_eq_self (List.getElem?_eq_none_iff.mp hrow)]
  | some row =>
      have hcount := countP_modify (p := p) (f := f) hrow
      rw [h row hrow] at hcount
      exact Nat.add_right_cancel hcount

/-! ## Row by row -/

theorem forall₂_update [Std.Refl R] (h : ∀ row ∈ rows, cond row = true → R row (set row)) :
    List.Forall₂ R rows (update rows cond set) := by
  refine List.forall₂_map_right_iff.mpr (List.forall₂_same.mpr fun row hrow => ?_)
  cases hcond : cond row with
  | true => exact h row hrow hcond
  | false => exact refl_of R row

theorem forall₂_trans [IsTrans ρ R] {rows' rows'' : List ρ} (h : List.Forall₂ R rows rows')
    (h' : List.Forall₂ R rows' rows'') :
    List.Forall₂ R rows rows'' := by
  induction h generalizing rows'' with
  | nil => exact h'
  | cons hrow _ ih =>
      cases h' with
      | cons hrow' hrest' => exact .cons (trans_of R hrow hrow') (ih hrest')

theorem forall₂_of_getElem? {rows' : List ρ} (hlength : rows'.length = rows.length)
    (h : ∀ (k : Nat) (row row' : ρ), rows[k]? = some row → rows'[k]? = some row' → R row row') :
    List.Forall₂ R rows rows' :=
  List.forall₂_of_length_eq_of_get hlength.symm fun k hk hk' =>
    h k _ _ (List.getElem?_eq_getElem hk) (List.getElem?_eq_getElem hk')

theorem forall₂_modify [Std.Refl R] (h : ∀ row, rows[k]? = some row → R row (f row)) :
    List.Forall₂ R rows (rows.modify k f) := by
  refine forall₂_of_getElem? (List.length_modify ..) fun j row row' hrow hrow' => ?_
  obtain ⟨old, hold, rfl⟩ := exists_of_modify hrow'
  cases hrow.symm.trans hold
  split
  · next hkj => exact h row (hkj ▸ hrow)
  · exact refl_of R row

theorem getElem?_of_forall₂ {rows' : List ρ} (h : List.Forall₂ R rows rows')
    (hrow : rows[k]? = some row) : ∃ row', rows'[k]? = some row' ∧ R row row' := by
  obtain ⟨hk, rfl⟩ := List.getElem?_eq_some_iff.mp hrow
  have hk' : k < rows'.length := h.length_eq ▸ hk
  exact ⟨rows'[k], List.getElem?_eq_getElem hk', h.get hk hk'⟩

theorem length_filter_le_of_forall₂ {rows' : List ρ}
    (hclass : ∀ row row', R row row' → p row' = true → p row = true)
    (h : List.Forall₂ R rows rows') :
    (rows'.filter p).length ≤ (rows.filter p).length := by
  induction h with
  | nil => exact Nat.le_refl 0
  | @cons row row' rows rows' hrow _ ih =>
      cases hp : p row' with
      | true => simpa [hp, hclass row row' hrow hp] using ih
      | false =>
          rw [List.filter_cons_of_neg (by simp [hp])]
          exact Nat.le_trans ih ((List.sublist_cons_self row rows).filter p).length_le

/-- A query by key after the row with that key has been replaced. -/
theorem find?_replace [BEq κ] [LawfulBEq κ] {k : κ} (hrow : key row = k) :
    (update rows (fun other => key other == k) fun _ => row).find? (fun other => key other == k) =
      if rows.any (fun other => key other == k) then some row else none := by
  induction rows with
  | nil => rfl
  | cons first rest ih =>
      rw [update_cons, List.any_cons]
      cases hfirst : key first == k with
      | true => simp [hrow]
      | false =>
          rw [if_neg (by simp), List.find?_cons_of_neg (by simp [hfirst]), ih, Bool.false_or]

theorem find?_replace_of_ne [BEq κ] [LawfulBEq κ] {k k' : κ} (hrow : key row = k) (hne : k ≠ k') :
    (update rows (fun other => key other == k) fun _ => row).find? (fun other => key other == k') =
      rows.find? fun other => key other == k' := by
  induction rows with
  | nil => rfl
  | cons first rest ih =>
      rw [update_cons]
      cases hfirst : key first == k with
      | true =>
          have hkey : key first = k := beq_iff_eq.mp hfirst
          rw [if_pos rfl, List.find?_cons_of_neg (by simpa [hrow] using hne),
            List.find?_cons_of_neg (by simpa [hkey] using hne), ih]
      | false =>
          rw [if_neg (by simp), List.find?_cons, List.find?_cons, ih]

end Table
