-- SUMMARY: Maps that keep the order in which their keys were set.
import Pluton.Js

/-!
# Maps in the order of insertion

A `Map` of the language with texts as its keys. A key that is set again keeps its place, one
that was deleted has none.
-/

structure OrderedMap (α : Type) where
  entries : List (String × α)
  nodup : (entries.map Prod.fst).Nodup

namespace OrderedMap

variable {α : Type} {map : OrderedMap α} {key other : String} {value : α}

def empty : OrderedMap α := ⟨[], List.nodup_nil⟩

/-- `map.get(key)` -/
def get (map : OrderedMap α) (key : String) : Option α := map.entries.lookup key

theorem keys_mapSet (entries : List (String × α)) (key : String) (value : α) :
    (Js.mapSet entries key value).map Prod.fst =
      if entries.any (·.1 == key) then entries.map Prod.fst else entries.map Prod.fst ++ [key] := by
  unfold Js.mapSet
  split
  · rw [List.map_map]
    refine List.map_congr_left fun entry _ => ?_
    by_cases hkey : entry.1 = key
    · simp [hkey]
    · simp [hkey]
  · rw [List.map_append]
    rfl

/-- `map.set(key, value)` -/
def set (map : OrderedMap α) (key : String) (value : α) : OrderedMap α where
  entries := Js.mapSet map.entries key value
  nodup := by
    rw [keys_mapSet]
    split
    · exact map.nodup
    · next hnew =>
        refine List.nodup_append.mpr ⟨map.nodup, List.nodup_singleton key, ?_⟩
        rintro _ hmem _ hkey rfl
        obtain ⟨entry, hentry, rfl⟩ := List.mem_map.mp hmem
        exact hnew (List.any_eq_true.mpr ⟨entry, hentry, by simpa using List.mem_singleton.mp hkey⟩)

/-- `map.delete(key)` -/
def delete (map : OrderedMap α) (key : String) : OrderedMap α where
  entries := map.entries.filter (·.1 != key)
  nodup := map.nodup.sublist (List.filter_sublist.map _)

/-- Every value is replaced. -/
def mapValues (map : OrderedMap α) (f : String → α → α) : OrderedMap α where
  entries := map.entries.map fun (key, value) => (key, f key value)
  nodup := by
    rw [List.map_map]
    exact map.nodup

@[simp] theorem get_empty : (empty : OrderedMap α).get key = none := rfl

@[simp] theorem get_set_self : (map.set key value).get key = some value :=
  Js.lookup_mapSet_self _ _ _

theorem get_set_of_ne (h : other ≠ key) : (map.set key value).get other = map.get other :=
  Js.lookup_mapSet_of_ne _ _ h

theorem get_set :
    (map.set key value).get other = if other = key then some value else map.get other := by
  split
  · next h =>
      rw [h]
      exact get_set_self
  · next h => exact get_set_of_ne h

theorem get_delete : (map.delete key).get other = if other = key then none else map.get other := by
  unfold get delete
  dsimp only
  induction map.entries with
  | nil => simp
  | cons entry rest ih =>
      obtain ⟨name, held⟩ := entry
      rw [List.filter_cons, List.lookup_cons]
      by_cases hname : name = key
      · rw [if_neg (by simp [hname]), ih]
        split
        · rfl
        · next hne => rw [beq_false_of_ne fun heq => hne (heq.trans hname)]
      · rw [if_pos (by simp [hname]), List.lookup_cons, ih]
        cases hcase : other == name with
        | true =>
            have hother : other = name := beq_iff_eq.mp hcase
            exact (if_neg fun heq => hname (hother.symm.trans heq)).symm
        | false => rfl

theorem get_mapValues {f : String → α → α} :
    (map.mapValues f).get key = (map.get key).map (f key) := by
  unfold get mapValues
  dsimp only
  induction map.entries with
  | nil => rfl
  | cons entry rest ih =>
      obtain ⟨name, held⟩ := entry
      rw [List.map_cons, List.lookup_cons, List.lookup_cons]
      cases hcase : key == name with
      | true => rw [beq_iff_eq.mp hcase, Option.map_some]
      | false => exact ih

/-- The entries are what `get` finds. -/
theorem mem_entries : (key, value) ∈ map.entries ↔ map.get key = some value := by
  constructor
  · intro hmem
    unfold get
    rw [List.lookup_eq_some_iff]
    obtain ⟨before, after, hentries⟩ := List.append_of_mem hmem
    refine ⟨before, after, hentries, ?_⟩
    intro entry hentry
    have hnodup := map.nodup
    rw [hentries, List.map_append, List.nodup_append] at hnodup
    have hne := hnodup.2.2 entry.1 (List.mem_map_of_mem hentry) key (by simp)
    simpa using hne.symm
  · exact Js.mem_of_lookup

/-! ## Maps over each other -/

/-- `{ ...map, ...later }` -/
def spread (map later : OrderedMap α) : OrderedMap α :=
  later.entries.foldl (fun map entry => map.set entry.1 entry.2) map

theorem get_foldl_set {entries : List (String × α)} (hnodup : (entries.map Prod.fst).Nodup) :
    (entries.foldl (fun map entry => map.set entry.1 entry.2) map).get key =
      (entries.lookup key).or (map.get key) := by
  induction entries generalizing map with
  | nil => rfl
  | cons entry rest ih =>
      obtain ⟨name, value⟩ := entry
      rw [List.map_cons, List.nodup_cons] at hnodup
      rw [List.foldl_cons, ih hnodup.2, List.lookup_cons, get_set]
      by_cases hkey : key = name
      · have hnone : rest.lookup key = none := by
          refine List.lookup_eq_none_iff.mpr fun other hmem => bne_iff_ne.mpr fun heq => ?_
          exact hnodup.1 (hkey ▸ heq ▸ List.mem_map.mpr ⟨other, hmem, rfl⟩)
        rw [hnone, if_pos hkey, beq_iff_eq.mpr hkey]
        rfl
      · rw [if_neg hkey, beq_false_of_ne hkey]

theorem get_spread {later : OrderedMap α} :
    (map.spread later).get key = (later.get key).or (map.get key) :=
  get_foldl_set later.nodup

/-- The maps spread over each other, the last one last. -/
def merged (maps : List (OrderedMap α)) : OrderedMap α := maps.foldl spread empty

theorem get_merged_append {maps : List (OrderedMap α)} {later : OrderedMap α} :
    (merged (maps ++ [later])).get key = (later.get key).or ((merged maps).get key) := by
  unfold merged
  rw [List.foldl_append]
  exact get_spread

end OrderedMap
