-- SUMMARY: Toggling an entry of the restore dialog changes the selection as its checkbox says.
import Pluton.Restore.Paths

/-!
# Toggling

Decoding what was encoded gives the members of the complete subtrees and what is above
them. A selection that was reached by toggling is recovered from its complete subtrees, so
a toggle changes the subtree of its entry and the directories above it, and nothing else.
-/
namespace Pluton.Restore

open Forest

variable {files : List RestoreEntry} {set chosen : List String} {selection : RestoreSelection}
  {x text pathname : String} {file : RestoreEntry} {list : List RestoreEntry}

/-! ## Sets -/

@[simp] theorem mem_addTo : x ∈ addTo set text ↔ x ∈ set ∨ x = text := by
  unfold addTo
  split
  · next hmem =>
      refine ⟨.inl, fun h => ?_⟩
      rcases h with h | rfl
      · exact h
      · simpa using hmem
  · simp

@[simp] theorem mem_deleteFrom : x ∈ deleteFrom set text ↔ x ∈ set ∧ x ≠ text := by
  simp [deleteFrom]

@[simp] theorem mem_newSet : x ∈ newSet set ↔ x ∈ set := List.mem_eraseDups

/-- The members, as a set. -/
def members (set : List String) : Set String := {x | x ∈ set}

/-- A text is added under a condition, which counts when it is no member yet. -/
theorem mem_addTo_if {add : Bool} {below : Prop} (hadd : text ∉ set → (add = true ↔ below)) :
    x ∈ (if add = true then addTo set text else set) ↔ x ∈ set ∨ x = text ∧ below := by
  by_cases hmem : text ∈ set
  · have hin : x ∈ (if add = true then addTo set text else set) ↔ x ∈ set := by
      split
      · rw [mem_addTo, or_iff_left_of_imp fun heq => heq ▸ hmem]
      · rfl
    rw [hin]
    exact ⟨.inl, fun h => h.elim id fun heq => heq.1 ▸ hmem⟩
  · by_cases hbelow : below
    · rw [if_pos ((hadd hmem).mpr hbelow), mem_addTo, and_iff_left hbelow]
    · rw [if_neg fun htrue => hbelow ((hadd hmem).mp htrue)]
      simp [hbelow]

/-- Adding the directories above members, one after the other, adds each that is above a
member of the first set. -/
theorem mem_foldl_raise {add : List String → RestoreEntry → List String}
    {directories : List RestoreEntry} (hdirectories : ∀ directory ∈ directories, directory ∈ files)
    (hadd : ∀ set, ∀ directory ∈ directories, ∀ x, x ∈ add set directory ↔
      x ∈ set ∨ x = directory.path ∧ ∃ file ∈ files,
        file.path ∈ set ∧ Contains directory.path file.path) :
    x ∈ directories.foldl add set ↔ x ∈ set ∨ ∃ directory ∈ directories, x = directory.path ∧
      ∃ file ∈ files, file.path ∈ set ∧ Contains directory.path file.path := by
  induction directories generalizing set with
  | nil => simp
  | cons first rest ih =>
      obtain ⟨-, hrest⟩ := List.forall_mem_cons.mp hdirectories
      rw [List.foldl_cons,
        ih hrest fun set directory hmem => hadd set directory (List.mem_cons_of_mem _ hmem),
        hadd set first List.mem_cons_self]
      have hfirst := hadd set first List.mem_cons_self
      constructor
      · rintro ((hmem | ⟨rfl, hbelow⟩) | ⟨directory, hmem, rfl, file, hfile, hset, hcontains⟩)
        · exact .inl hmem
        · exact .inr ⟨first, List.mem_cons_self, rfl, hbelow⟩
        · refine .inr ⟨directory, List.mem_cons_of_mem _ hmem, rfl, ?_⟩
          rcases (hfirst file.path).mp hset with hset | ⟨heq, other, hother, hset, habove⟩
          · exact ⟨file, hfile, hset, hcontains⟩
          · exact ⟨other, hother, hset, trans_of Contains hcontains (heq ▸ habove)⟩
      · rintro (hmem | ⟨directory, hmem, rfl, file, hfile, hset, hcontains⟩)
        · exact .inl (.inl hmem)
        · rcases List.mem_cons.mp hmem with rfl | hmem
          · exact .inl (.inr ⟨rfl, file, hfile, hset, hcontains⟩)
          · exact .inr ⟨directory, hmem, rfl, file, hfile,
              (hfirst file.path).mpr (.inl hset), hcontains⟩

/-- An entry that contains another is it, or a directory. -/
theorem Tree.eq_or_directory (h : Tree files) {file other : RestoreEntry} (hfile : file ∈ files)
    (hother : other ∈ files) (hcontains : Contains file.path other.path) :
    file = other ∨ file.isDirectory = true := by
  by_cases hpath : file.path = other.path
  · exact .inl (h.unique hfile hother hpath)
  · exact .inr (h.leaf file hfile other hother hcontains hpath)

/-- Among entries, what is raised from a set is it and the directories above it. -/
theorem mem_raised_iff (h : Tree files) (hset : ∀ x ∈ set, x ∈ paths files) :
    x ∈ raised Contains (paths files) (members set) ↔
    x ∈ set ∨ ∃ directory ∈ files.filter RestoreEntry.isDirectory,
      x = directory.path ∧ ∃ file ∈ files, file.path ∈ set ∧ Contains directory.path file.path := by
  constructor
  · rintro ⟨⟨file, hfile, rfl⟩, c, hc, hcontains⟩
    obtain ⟨other, hother, rfl⟩ := hset c hc
    rcases h.eq_or_directory hfile hother hcontains with rfl | hdirectory
    · exact .inl hc
    · exact .inr ⟨file, List.mem_filter.mpr ⟨hfile, hdirectory⟩, rfl, other, hother, hc, hcontains⟩
  · rintro (hmem | ⟨directory, hdirectory, rfl, file, hfile, hmem, hcontains⟩)
    · exact ⟨hset x hmem, x, hmem, refl_of Contains x⟩
    · exact ⟨⟨directory, (List.mem_filter.mp hdirectory).1, rfl⟩, file.path, hmem, hcontains⟩

/-! ## Decoding -/

/-- The paths of the files that the selection covers. -/
def covered (files : List RestoreEntry) (selection : RestoreSelection) : List String :=
  newSet ((files.filter selection.covers).map RestoreEntry.path)

theorem mem_covered : x ∈ covered files selection ↔
    ∃ file ∈ files, selection.covers file = true ∧ file.path = x := by
  simp [covered, and_assoc]

theorem covered_subset : ∀ x ∈ covered files selection, x ∈ paths files := by
  intro x hx
  obtain ⟨file, hfile, -, rfl⟩ := mem_covered.mp hx
  exact ⟨file, hfile, rfl⟩

theorem mem_selectedRestorePaths (h : Tree files) :
    x ∈ selectedRestorePaths files selection ↔
    x ∈ raised Contains (paths files) (members (covered files selection)) := by
  rw [mem_raised_iff h covered_subset]
  refine mem_foldl_raise (fun directory hmem =>
    (List.mem_filter.mp hmem).1) fun set directory _ y => ?_
  exact mem_addTo_if fun _ => by simp [List.any_eq_true, Contains]

/-! ## Decoding what was encoded -/

theorem mem_complete (h : Tree files) :
    file ∈ complete files chosen ↔
    file ∈ files ∧ Complete Contains (paths files) (members chosen) file.path := by
  unfold complete
  rw [List.mem_filter, Bool.and_eq_true, Bool.or_eq_true, Bool.not_eq_true',
    List.contains_iff_mem, List.all_eq_true]
  refine and_congr_right fun hfile => ?_
  constructor
  · rintro ⟨hchosen, hbelow⟩ _ ⟨child, hchild, rfl⟩ hcontains
    rcases hbelow with hplain | hbelow
    · rcases h.eq_or_directory hfile hchild hcontains with rfl | hdirectory
      · exact hchosen
      · rw [hplain] at hdirectory
        cases hdirectory
    · have hall := hbelow child hchild
      rw [show contains file.path child.path = true from hcontains] at hall
      have hmem : child.path ∈ chosen := by simpa using hall
      exact hmem
  · intro hcomplete
    refine ⟨hcomplete file.path ⟨file, hfile, rfl⟩ (refl_of Contains file.path),
      .inr fun child hchild => ?_⟩
    by_cases hcontains : contains file.path child.path = true
    · have hmem : child.path ∈ chosen := hcomplete child.path ⟨child, hchild, rfl⟩ hcontains
      simp [hmem]
    · simp [hcontains]

/-- Every member of a list is at or below a topmost one. -/
theorem exists_topmost (h : Tree files) (hsub : ∀ file ∈ list, file ∈ files) (hfile : file ∈ list) :
    ∃ top ∈ topmost list, Contains top.path file.path := by
  induction hlength : (key file.path).length using Nat.strong_induction_on generalizing file with
  | _ n ih =>
      by_cases htop : file ∈ topmost list
      · exact ⟨file, htop, refl_of Contains file.path⟩
      · have hparent : ∃ parent ∈ list, parent.path ≠ file.path ∧
            Contains parent.path file.path := by
          simp only [topmost, List.mem_filter, hfile, true_and, Bool.not_eq_true,
            Bool.not_eq_false', List.any_eq_true, Bool.and_eq_true, bne_iff_ne] at htop
          obtain ⟨parent, hparent, ⟨-, hne⟩, hcontains⟩ := htop
          exact ⟨parent, hparent, hne, hcontains⟩
        obtain ⟨parent, hparent, hne, hcontains⟩ := hparent
        have hshort : (key parent.path).length < n := by
          have hkey := (contains_iff _ _).mp hcontains
          refine lt_of_le_of_ne (hlength ▸ hkey.length_le) fun heq => hne ?_
          have hsame : key parent.path = key file.path := hkey.eq_of_length (heq.trans hlength.symm)
          have hback : key file.path <+: key parent.path := by
            simp only [hsame, List.prefix_refl]
          exact (h.managed parent (hsub parent hparent)).antisymm
            (h.managed file (hsub file hfile)) hcontains
            ((contains_iff _ _).mpr hback)
        obtain ⟨top, htop, habove⟩ := ih _ hshort hparent rfl
        exact ⟨top, htop, trans_of Contains habove hcontains⟩

theorem topmost_subset : ∀ file ∈ topmost list, file ∈ list := fun _ h =>
  (List.mem_filter.mp h).1

/-- A selection without includes that excludes the topmost files covers nothing. -/
theorem covers_encodeNothing (h : Tree files) (hfile : file ∈ files) :
    (encodeNothing files).covers file = false := by
  obtain ⟨top, htop, hcontains⟩ := exists_topmost h (fun _ hmem => hmem) hfile
  have hexcluded :
      (encodeNothing files).excludes.any (fun path => contains path file.path) = true :=
    List.any_eq_true.mpr ⟨top.path, mem_newSet.mpr (List.mem_map_of_mem htop), hcontains⟩
  unfold RestoreSelection.covers
  rw [hexcluded]
  simp

/-- The encoding covers the entries of the complete subtrees. -/
theorem covers_encode (h : Tree files) (hfile : file ∈ files) :
    (encodeRestoreSelection files chosen).covers file = true ↔
    Complete Contains (paths files) (members chosen) file.path := by
  unfold encodeRestoreSelection
  split
  · next hall =>
      simp only [Bool.and_eq_true, List.all_eq_true, List.contains_iff_mem] at hall
      refine iff_of_true rfl ?_
      rintro _ ⟨child, hchild, rfl⟩ -
      exact hall.2 child hchild
  · split
    · next hempty =>
        rw [covers_encodeNothing h hfile]
        refine iff_of_false nofun fun hcomplete => ?_
        have hmem : file.path ∈ chosen :=
          hcomplete file.path ⟨file, hfile, rfl⟩ (refl_of Contains file.path)
        rw [List.isEmpty_iff.mp hempty] at hmem
        exact absurd hmem List.not_mem_nil
    · split
      · next hempty =>
          rw [covers_encodeNothing h hfile]
          refine iff_of_false nofun fun hcomplete => ?_
          have hmem := (mem_complete h).mpr ⟨hfile, hcomplete⟩
          rw [List.isEmpty_iff.mp hempty] at hmem
          exact absurd hmem List.not_mem_nil
      · next hsome =>
          have hsub : ∀ file ∈ complete files chosen, file ∈ files := fun _ hmem =>
            ((mem_complete h).mp hmem).1
          obtain ⟨other, hother⟩ := List.exists_mem_of_ne_nil _ (mt List.isEmpty_iff.mpr hsome)
          obtain ⟨top, htop, -⟩ := exists_topmost h hsub hother
          have hincludes :
              (newSet ((topmost (complete files chosen)).map RestoreEntry.path)).isEmpty =
                false := by
            rw [List.isEmpty_eq_false_iff_exists_mem]
            exact ⟨top.path, mem_newSet.mpr (List.mem_map_of_mem htop)⟩
          unfold RestoreSelection.covers
          simp only [hincludes, Bool.false_or, List.any_nil, Bool.not_false, Bool.and_true,
            List.any_eq_true, mem_newSet]
          constructor
          · rintro ⟨_, hpath, hcontains⟩
            obtain ⟨top, htop, rfl⟩ := List.mem_map.mp hpath
            exact ((mem_complete h).mp (topmost_subset top htop)).2.mono hcontains
          · intro hcomplete
            obtain ⟨top, htop, hcontains⟩ :=
              exists_topmost h hsub ((mem_complete h).mpr ⟨hfile, hcomplete⟩)
            exact ⟨top.path, List.mem_map_of_mem htop, hcontains⟩

theorem mem_decode_encode (h : Tree files) :
    x ∈ selectedRestorePaths files (encodeRestoreSelection files chosen) ↔
    x ∈ kept Contains (paths files) (members chosen) := by
  rw [mem_selectedRestorePaths h]
  constructor
  · rintro ⟨hx, c, hc, hcontains⟩
    obtain ⟨file, hfile, hcovers, rfl⟩ := mem_covered.mp hc
    exact ⟨hx, file.path, ⟨file, hfile, rfl⟩, hcontains, (covers_encode h hfile).mp hcovers⟩
  · rintro ⟨hx, _, ⟨file, hfile, rfl⟩, hcontains, hcomplete⟩
    exact ⟨hx, file.path, mem_covered.mpr ⟨file, hfile, (covers_encode h hfile).mpr hcomplete, rfl⟩,
      hcontains⟩

/-! ## A toggle -/

theorem selected_subset (h : Tree files) :
    ∀ x ∈ selectedRestorePaths files selection, x ∈ paths files := fun _ hx =>
  ((mem_selectedRestorePaths h).mp hx).1

/-- The selected entries. -/
def selectedSet (files : List RestoreEntry) (selection : RestoreSelection) : Set String :=
  members (selectedRestorePaths files selection)

theorem restoreSelectionState_eq_all :
    restoreSelectionState files set pathname = .all ↔
      (∃ file ∈ files, Contains pathname file.path) ∧ ∀ file ∈ files, Contains pathname file.path →
      file.path ∈ set := by
  unfold restoreSelectionState
  dsimp only
  have hsubtree : (!(files.filter fun file => contains pathname file.path).isEmpty &&
      (files.filter fun file => contains pathname file.path).all fun file =>
        set.contains file.path) = true ↔
        (∃ file ∈ files, Contains pathname file.path) ∧ ∀ file ∈ files,
          Contains pathname file.path → file.path ∈ set := by
    rw [Bool.and_eq_true, Bool.not_eq_true', List.isEmpty_eq_false_iff_exists_mem, List.all_eq_true]
    simp only [List.mem_filter, List.contains_iff_mem, and_imp]
    rfl
  split
  · next hall => exact iff_of_true rfl (hsubtree.mp hall)
  · next hnot =>
      refine iff_of_false ?_ fun hall => hnot (hsubtree.mpr hall)
      split <;> exact nofun

theorem mem_flipSubtree {remove : Bool} :
    x ∈ flipSubtree list remove pathname set ↔
      if remove then x ∈ set ∧ ¬ ∃ file ∈ list, Contains pathname file.path ∧ file.path = x
      else x ∈ set ∨ ∃ file ∈ list, Contains pathname file.path ∧ file.path = x := by
  unfold flipSubtree
  induction list generalizing set with
  | nil => cases remove <;> simp
  | cons file rest ih =>
      have hcons : (∃ other ∈ file :: rest, Contains pathname other.path ∧ other.path = x) ↔
          (Contains pathname file.path ∧ file.path = x) ∨
          ∃ other ∈ rest, Contains pathname other.path ∧ other.path = x := by
        simp only [List.mem_cons, or_and_right, exists_or, exists_eq_left]
      rw [List.foldl_cons, ih, hcons]
      by_cases hcontains : Contains pathname file.path
      · have htrue : contains pathname file.path = true := hcontains
        rw [if_pos htrue, and_iff_right hcontains, eq_comm (a := file.path)]
        cases remove with
        | true => simp only [if_true, mem_deleteFrom, ne_eq, not_or, and_assoc]
        | false => simp only [Bool.false_eq_true, if_false, mem_addTo, or_assoc]
      · have hfalse : ¬ contains pathname file.path = true := hcontains
        rw [if_neg hfalse]
        simp only [hcontains, false_and, false_or]

/-- A toggle encodes what is at or above the entries that are left of the selection. -/
theorem toggle_eq (h : Tree files) (selection : RestoreSelection) (pathname : String) :
    ∃ chosen, toggleRestoreSelection files selection pathname =
      encodeRestoreSelection files chosen ∧
      members chosen =
        raised Contains (paths files)
          (flipped Contains (paths files) (selectedSet files selection) pathname) := by
  refine ⟨_, rfl, ?_⟩
  have hsubset := @selected_subset files selection h
  generalize hremove :
    (restoreSelectionState files (selectedRestorePaths files selection) pathname == .all) = remove
  -- the loop over the subtree adds or takes away what `flipped` does
  have hflip : ∀ y, y ∈ flipSubtree files remove pathname (selectedRestorePaths files selection) ↔
      y ∈ flipped Contains (paths files) (selectedSet files selection) pathname := by
    intro y
    have hentry : (∃ file ∈ files, Contains pathname file.path ∧ file.path = y) ↔
        y ∈ paths files ∧ Contains pathname y := by
      constructor
      · rintro ⟨file, hfile, hcontains, rfl⟩
        exact ⟨⟨file, hfile, rfl⟩, hcontains⟩
      · rintro ⟨⟨file, hfile, rfl⟩, hcontains⟩
        exact ⟨file, hfile, hcontains, rfl⟩
    -- the code removes where all is selected, and there is something to select
    have hall : remove = true ↔ (∃ file ∈ files, Contains pathname file.path) ∧
        ∀ file ∈ files, Contains pathname file.path →
          file.path ∈ selectedRestorePaths files selection := by
      rw [← hremove, beq_iff_eq, restoreSelectionState_eq_all]
    have hcomplete : Complete Contains (paths files) (selectedSet files selection) pathname ↔
        ∀ file ∈ files, Contains pathname file.path →
          file.path ∈ selectedRestorePaths files selection := by
      constructor
      · intro hcomplete file hfile
        exact hcomplete file.path ⟨file, hfile, rfl⟩
      · rintro hcomplete _ ⟨file, hfile, rfl⟩
        exact hcomplete file hfile
    rw [mem_flipSubtree, hentry]
    cases remove with
    | true =>
        have htrue := hcomplete.mpr (hall.mp rfl).2
        rw [if_pos rfl]
        constructor
        · rintro ⟨hmem, hnot⟩
          exact ⟨hsubset y hmem, .inl ⟨htrue, hmem,
            fun hcontains => hnot ⟨hsubset y hmem, hcontains⟩⟩⟩
        · rintro ⟨-, ⟨-, hmem, hnot⟩ | ⟨hnot, -⟩⟩
          · exact ⟨hmem, fun hboth => hnot hboth.2⟩
          · exact absurd htrue hnot
    | false =>
        rw [if_neg nofun]
        constructor
        · rintro (hmem | ⟨hy, hcontains⟩)
          · refine ⟨hsubset y hmem, ?_⟩
            by_cases hfull : Complete Contains (paths files) (selectedSet files selection) pathname
            · refine .inl ⟨hfull, hmem, fun hcontains => ?_⟩
              obtain ⟨file, hfile, rfl⟩ := hsubset y hmem
              exact absurd (hall.mpr ⟨⟨file, hfile, hcontains⟩, hcomplete.mp hfull⟩) nofun
            · exact .inr ⟨hfull, .inl hmem⟩
          · refine ⟨hy, .inr ⟨fun hfull => ?_, .inr hcontains⟩⟩
            obtain ⟨file, hfile, rfl⟩ := hy
            exact absurd (hall.mpr ⟨⟨file, hfile, hcontains⟩, hcomplete.mp hfull⟩) nofun
        · rintro ⟨hy, ⟨-, hmem, -⟩ | ⟨-, hmem | hcontains⟩⟩
          · exact .inl hmem
          · exact .inl hmem
          · exact .inr ⟨hy, hcontains⟩
  -- then the directories that became complete are added
  ext y
  have hset : members (flipSubtree files remove pathname (selectedRestorePaths files selection)) =
      flipped Contains (paths files) (selectedSet files selection) pathname := Set.ext hflip
  have hsub : ∀ z ∈ flipSubtree files remove pathname (selectedRestorePaths files selection),
      z ∈ paths files :=
    fun z hz => ((hflip z).mp hz).1
  rw [← hset, mem_raised_iff h hsub]
  refine mem_foldl_raise (fun directory hmem =>
    (List.mem_filter.mp hmem).1) fun set directory _ z => ?_
  refine mem_addTo_if fun hnew => ?_
  simp only [List.any_eq_true, Bool.and_eq_true, bne_iff_ne, List.contains_iff_mem, Contains]
  constructor
  · rintro ⟨child, hchild, ⟨-, hmem⟩, hcontains⟩
    exact ⟨child, hchild, hmem, hcontains⟩
  · rintro ⟨child, hchild, hmem, hcontains⟩
    exact ⟨child, hchild, ⟨fun heq => hnew (heq ▸ hmem), hmem⟩, hcontains⟩

theorem selectedSet_toggle (h : Tree files) (selection : RestoreSelection) (pathname : String) :
    selectedSet files (toggleRestoreSelection files selection pathname) =
      toggled Contains (paths files) (selectedSet files selection) pathname := by
  obtain ⟨chosen, htoggle, hchosen⟩ := toggle_eq h selection pathname
  unfold toggled
  rw [htoggle, ← hchosen]
  exact Set.ext fun _ => mem_decode_encode h

theorem selectedSet_all (h : Tree files) : selectedSet files .all = paths files := by
  ext y
  refine ⟨selected_subset h y,
    fun hy => (mem_selectedRestorePaths h).mpr ⟨hy, y, ?_, refl_of Contains y⟩⟩
  obtain ⟨file, hfile, rfl⟩ := hy
  exact mem_covered.mpr ⟨file, hfile, rfl, rfl⟩

/-- The selections that are reached from Select All by toggling. -/
inductive Reachable (files : List RestoreEntry) : RestoreSelection → Prop where
  | all : Reachable files .all
  | toggle {selection : RestoreSelection} (pathname : String) (h : Reachable files selection) :
      Reachable files (toggleRestoreSelection files selection pathname)

theorem Reachable.stable {selection : RestoreSelection} (h : Tree files)
    (hreachable : Reachable files selection) :
    Stable Contains (paths files) (selectedSet files selection) := by
  cases hreachable with
  | all =>
      rw [selectedSet_all h]
      exact stable_univ
  | toggle pathname hbefore =>
      rw [selectedSet_toggle h]
      exact stable_kept

/-- What a toggle at `pathname` does to the selected entries. -/
structure Toggled (files : List RestoreEntry) (before after : RestoreSelection)
    (pathname : String) : Prop where
  /-- The subtree is selected exactly if not all of it was. -/
  subtree : ∀ file ∈ files, Contains pathname file.path →
    (file.path ∈ selectedRestorePaths files after ↔
      ¬ ∀ other ∈ files, Contains pathname other.path →
      other.path ∈ selectedRestorePaths files before)
  /-- What is neither in the subtree nor a directory above it stays as it was. -/
  apart : ∀ file ∈ files, ¬ Contains pathname file.path →
    ¬ (file.isDirectory = true ∧ Contains file.path pathname) →
      (file.path ∈ selectedRestorePaths files after ↔ file.path ∈ selectedRestorePaths files before)
  /-- A directory above it is selected exactly if something strictly below the directory is. -/
  above : ∀ directory ∈ files, directory.isDirectory = true → Contains directory.path pathname →
    ¬ Contains pathname directory.path →
      (directory.path ∈ selectedRestorePaths files after ↔
        ∃ file ∈ files, Contains directory.path file.path ∧ file.path ≠ directory.path ∧
          file.path ∈ selectedRestorePaths files after)

theorem selectedRestorePaths_encode_nil (h : Tree files) :
    selectedRestorePaths files (encodeRestoreSelection files []) = [] := by
  refine List.eq_nil_iff_forall_not_mem.mpr fun y hy => ?_
  obtain ⟨-, _, ⟨file, hfile, rfl⟩, -, hcomplete⟩ := (mem_decode_encode h).mp hy
  exact absurd
    (hcomplete file.path ⟨file, hfile, rfl⟩ (refl_of Contains file.path)) List.not_mem_nil

/-- A toggle at a path with an entry at or below it does what the checkbox says. -/
theorem toggled_exact (h : Tree files) (hreachable : Reachable files selection)
    (hpath : ∃ file ∈ files, Contains pathname file.path) :
    Toggled files selection (toggleRestoreSelection files selection pathname) pathname := by
  have hafter : ∀ y,
      y ∈ selectedRestorePaths files (toggleRestoreSelection files selection pathname) ↔
      y ∈ toggled Contains (paths files) (selectedSet files selection) pathname := fun y =>
    Set.ext_iff.mp (selectedSet_toggle h selection pathname) y
  have hpaths : ∀ file ∈ files, file.path ∈ paths files := fun file hfile => ⟨file, hfile, rfl⟩
  obtain ⟨entry, hentry, hbelow⟩ := hpath
  refine { subtree := ?_, apart := ?_, above := ?_ }
  · intro file hfile hcontains
    rw [hafter, mem_toggled_of_below (hpaths file hfile) hcontains, not_iff_not]
    constructor
    · intro hcomplete other hother
      exact hcomplete other.path ⟨other, hother, rfl⟩
    · rintro hall _ ⟨other, hother, rfl⟩
      exact hall other hother
  · intro file hfile hnot habove
    have hnotabove : ¬ Contains file.path pathname := by
      intro hcontains
      rcases h.eq_or_directory hfile hentry (trans_of Contains hcontains hbelow)
        with rfl | hdirectory
      · exact hnot hbelow
      · exact habove ⟨hdirectory, hcontains⟩
    rw [hafter]
    exact mem_toggled_of_apart linear_contains (hreachable.stable h)
      (hpaths file hfile) hnot hnotabove
  · intro directory hdirectory _ hcontains hnot
    rw [hafter, mem_toggled_of_above (hpaths entry hentry) hbelow
      (hpaths directory hdirectory) hcontains hnot]
    constructor
    · rintro ⟨_, ⟨file, hfile, rfl⟩, hfilebelow, hstrict, hmem⟩
      refine ⟨file, hfile, hfilebelow, fun heq => hstrict ?_, (hafter _).mpr hmem⟩
      rw [heq]
      exact refl_of Contains directory.path
    · rintro ⟨file, hfile, hfilebelow, hne, hmem⟩
      refine ⟨file.path, ⟨file, hfile, rfl⟩, hfilebelow, fun hback => hne ?_, (hafter _).mp hmem⟩
      exact (h.managed file hfile).antisymm (h.managed directory hdirectory) hback hfilebelow

/-- A toggle at a path with an entry at or below it does what its checkbox says, and at
any other path it changes nothing. A set of paths is encoded as Select All only if all
entries are among them, and the encoding of the empty set selects nothing. -/
theorem toggle_exact (files : List RestoreEntry) (h : Tree files) (selection : RestoreSelection)
    (hreachable : Reachable files selection) (pathname : String) :
    ((∃ file ∈ files, Contains pathname file.path) →
        Toggled files selection (toggleRestoreSelection files selection pathname) pathname) ∧
      ((¬ ∃ file ∈ files, Contains pathname file.path) → ∀ file ∈ files,
        (file.path ∈ selectedRestorePaths files (toggleRestoreSelection files selection pathname) ↔
          file.path ∈ selectedRestorePaths files selection)) ∧
      (∀ chosen, encodeRestoreSelection files chosen = .all → ∀ file ∈ files, file.path ∈ chosen) ∧
      selectedRestorePaths files (encodeRestoreSelection files []) = [] := by
  refine ⟨toggled_exact h hreachable, fun hnone file hfile => ?_, fun chosen hall file hfile => ?_,
    selectedRestorePaths_encode_nil h⟩
  · have hsame := toggled_of_none (hreachable.stable h) (p := pathname) fun c hc hcontains => by
      obtain ⟨other, hother, rfl⟩ := hc
      exact hnone ⟨other, hother, hcontains⟩
    exact Set.ext_iff.mp ((selectedSet_toggle h selection pathname).trans hsame) file.path
  · have hcovers : (encodeRestoreSelection files chosen).covers file = true := by
      rw [hall]
      rfl
    exact (covers_encode h hfile).mp hcovers file.path ⟨file, hfile, rfl⟩
      (refl_of Contains file.path)

/-! ## A directory with two files -/

/-- `/a` with two files, and a file beside it. -/
def sample : List RestoreEntry :=
  [⟨"/a", true, 0, some "dir"⟩, ⟨"/a/b", false, 3, some "file"⟩, ⟨"/a/c", false, 5, some "file"⟩,
    ⟨"/d", false, 7, some "file"⟩]

theorem sample_tree : Tree sample :=
  .of_parents (by decide) (by decide +kernel) (by decide +kernel)

/-- Select All without `/a/b`. -/
def sampleSelection : RestoreSelection := toggleRestoreSelection sample .all "/a/b"

/-- The directory was selected in part, so its toggle selects it as a whole. -/
theorem toggle_exact_sample :
    Toggled sample sampleSelection (toggleRestoreSelection sample sampleSelection "/a") "/a" ∧
      toggleRestoreSelection sample sampleSelection "/a" = .all :=
  ⟨(toggle_exact sample sample_tree sampleSelection (.toggle "/a/b" .all) "/a").1
    ⟨⟨"/a", true, 0, some "dir"⟩, List.mem_cons_self, refl_of Contains "/a"⟩, by decide +kernel⟩

end Pluton.Restore
