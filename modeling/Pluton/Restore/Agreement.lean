-- SUMMARY: What the server restores of a selection is what the browser shows as selected.
import Pluton.Restore.Includes

/-!
# The browser and the server agree

The server chooses what the selection covers and the listed directories above it, which is
what the browser decodes. It gives the complete subtrees to the restore, so nothing that
was not selected is restored with them.
-/
namespace Pluton.Restore.Server

open Tar Forest

variable {index : ManagedSnapshotIndex} {files : List RestoreEntry}
  {chosen selected : List ManagedSnapshotNode} {file node : ManagedSnapshotNode} {path x : String}

/-! ## The index and its list in the browser -/

/-- A node as the browser lists it. -/
def entry (node : ManagedSnapshotNode) : RestoreEntry :=
  ⟨node.path, node.type == .dir, node.size, some node.type.text⟩

/-- The browser lists the nodes of the index, in any order. Their paths are safe, nothing is
below a node that is no directory, and none is a special node. -/
structure Listed (index : ManagedSnapshotIndex) (files : List RestoreEntry) : Prop where
  perm : files.Perm (index.nodes.map entry)
  managed : ∀ node ∈ index.nodes, Managed node.path
  leaf : ∀ node ∈ index.nodes, ∀ other ∈ index.nodes, Contains node.path other.path →
    node.path ≠ other.path →
    node.type = .dir
  types : ∀ node ∈ index.nodes, node.type = .file ∨ node.type = .dir ∨ node.type = .symlink

theorem Listed.mem_files (h : Listed index files) {file : RestoreEntry} :
    file ∈ files ↔ ∃ node ∈ index.nodes, entry node = file := by
  rw [h.perm.mem_iff, List.mem_map]

theorem Listed.entry_mem (h : Listed index files) (hnode : node ∈ index.nodes) :
    entry node ∈ files :=
  h.mem_files.mpr ⟨node, hnode, rfl⟩

theorem Listed.mem_paths (h : Listed index files) :
    x ∈ paths files ↔ ∃ node ∈ index.nodes, node.path = x := by
  constructor
  · rintro ⟨file, hfile, rfl⟩
    obtain ⟨node, hnode, rfl⟩ := h.mem_files.mp hfile
    exact ⟨node, hnode, rfl⟩
  · rintro ⟨node, hnode, rfl⟩
    exact ⟨entry node, h.entry_mem hnode, rfl⟩

theorem Listed.tree (h : Listed index files) : Tree files where
  nodup := by
    have hperm := h.perm.map RestoreEntry.path
    rw [List.map_map] at hperm
    exact hperm.nodup_iff.mpr index.nodup
  managed := by
    intro file hfile
    obtain ⟨node, hnode, rfl⟩ := h.mem_files.mp hfile
    exact h.managed node hnode
  leaf := by
    intro file hfile other hother hcontains hne
    obtain ⟨node, hnode, rfl⟩ := h.mem_files.mp hfile
    obtain ⟨node', hnode', rfl⟩ := h.mem_files.mp hother
    exact beq_iff_eq.mpr (h.leaf node hnode node' hnode' hcontains hne)
theorem Listed.indexed (h : Listed index files) : Indexed index := ⟨h.managed, h.leaf⟩

/-! ## What is chosen is what is selected -/

/-- The lists of a selection, as the browser sends them. -/
def config (selection : RestoreSelection) : RestoreConfig :=
  ⟨selection.includes, selection.excludes⟩

/-- A selection names listed paths only. -/
def Named (files : List RestoreEntry) (selection : RestoreSelection) : Prop :=
  ∀ path ∈ selection.includes ++ selection.excludes, path ∈ paths files

theorem named_topmost {list : List RestoreEntry} (hsub : ∀ file ∈ list, file ∈ files) :
    ∀ path ∈ newSet ((topmost list).map RestoreEntry.path), path ∈ paths files := by
  intro path hpath
  obtain ⟨file, hfile, rfl⟩ := List.mem_map.mp (mem_newSet.mp hpath)
  exact ⟨file, hsub file (topmost_subset file hfile), rfl⟩

theorem named_encode (chosen : List String) :
    Named files (encodeRestoreSelection files chosen) := by
  have hnothing : Named files (encodeNothing files) := fun path hpath =>
    named_topmost (fun _ hmem => hmem) path (by simpa [encodeNothing] using hpath)
  unfold encodeRestoreSelection
  split
  · exact nofun
  · split
    · exact hnothing
    · split
      · exact hnothing
      · intro path hpath
        rw [List.append_nil] at hpath
        exact named_topmost (fun _ hmem => (List.mem_filter.mp hmem).1) path hpath

theorem named_of_reachable {selection : RestoreSelection} (h : Reachable files selection) :
    Named files selection := by
  cases h with
  | all => exact nofun
  | toggle pathname _ => exact named_encode _

variable {selection : RestoreSelection}

theorem covers_iff (h : Listed index files) (hnamed : Named files selection)
    (hnode : node ∈ index.nodes) :
    (config selection).covers node.path = selection.covers (entry node) := by
  have hany : ∀ list : List String, (∀ path ∈ list, path ∈ paths files) →
      list.any (contains · node.path) = list.any fun path => Restore.contains path node.path := by
    intro list hlist
    rw [Bool.eq_iff_iff, List.any_eq_true, List.any_eq_true]
    refine exists_congr fun path => and_congr_right fun hpath => ?_
    obtain ⟨other, hother, rfl⟩ := h.mem_paths.mp (hlist path hpath)
    exact contains_iff (h.managed other hother) (h.managed node hnode)
  unfold RestoreConfig.covers RestoreSelection.covers config entry
  dsimp only
  rw [hany selection.includes fun path hpath => hnamed path (List.mem_append_left _ hpath),
    hany selection.excludes fun path hpath => hnamed path (List.mem_append_right _ hpath)]

/-- The chosen nodes are those that the browser shows as selected. -/
theorem chosen_iff (h : Listed index files) (hnamed : Named files selection)
    (hnode : node ∈ index.nodes) :
    ((config selection).covers node.path = true ∨ node.type = .dir ∧ ∃ file ∈ index.nodes,
        (config selection).covers file.path = true ∧ node.path ∈ parentsOf file.path) ↔
      node.path ∈ selectedRestorePaths files selection := by
  rw [mem_selectedRestorePaths h.tree]
  constructor
  · intro hchosen
    refine ⟨h.mem_paths.mpr ⟨node, hnode, rfl⟩, ?_⟩
    rcases hchosen with hcovers | ⟨-, file, hfile, hcovers, hparent⟩
    · rw [covers_iff h hnamed hnode] at hcovers
      exact ⟨node.path, mem_covered.mpr ⟨entry node, h.entry_mem hnode, hcovers, rfl⟩,
        refl_of Contains node.path⟩
    · rw [covers_iff h hnamed hfile] at hcovers
      have habove := (mem_parentsOf (h.managed node hnode) (h.managed file hfile)).mp hparent
      exact ⟨file.path, mem_covered.mpr ⟨entry file, h.entry_mem hfile, hcovers, rfl⟩, habove.1⟩
  · rintro ⟨-, _, hcovered, hcontains⟩
    obtain ⟨_, hlisted, hcovers, rfl⟩ := mem_covered.mp hcovered
    obtain ⟨file, hfile, rfl⟩ := h.mem_files.mp hlisted
    rw [← covers_iff h hnamed hfile] at hcovers
    by_cases hpath : node.path = file.path
    · exact .inl (hpath ▸ hcovers)
    · exact .inr ⟨h.leaf node hnode file hfile hcontains hpath, file, hfile, hcovers,
        (mem_parentsOf (h.managed node hnode) (h.managed file hfile)).mpr ⟨hcontains, hpath⟩⟩
/-! ## The complete subtrees -/

/-- The chosen nodes are the selected ones. -/
structure Agrees (index : ManagedSnapshotIndex) (files : List RestoreEntry)
    (selection : RestoreSelection) (selected : List ManagedSnapshotNode) : Prop where
  among : Among index selected
  mem : ∀ node ∈ index.nodes, node ∈ selected ↔ node.path ∈ selectedRestorePaths files selection

/-- The subtree of a path is selected as a whole. -/
def Whole (files : List RestoreEntry) (selection : RestoreSelection) (path : String) : Prop :=
  Complete Contains (paths files) (selectedSet files selection) path

theorem Whole.mem (h : Listed index files) (hnode : node ∈ index.nodes)
    (hwhole : Whole files selection node.path) :
    node.path ∈ selectedRestorePaths files selection :=
  hwhole node.path (h.mem_paths.mpr ⟨node, hnode, rfl⟩) (refl_of Contains node.path)
/-- The paths that are selected as a whole are those below which every node was chosen. -/
theorem whole_iff (h : Listed index files) (ha : Agrees index files selection selected) :
    Whole files selection path ↔ Full index selected path := by
  constructor
  · intro hwhole other hother hcontains
    exact (ha.mem other hother).mpr
      (hwhole other.path (h.mem_paths.mpr ⟨other, hother, rfl⟩) hcontains)
  · intro hfull c hc hcontains
    obtain ⟨other, hother, rfl⟩ := h.mem_paths.mp hc
    exact (ha.mem other hother).mp (hfull other hother hcontains)

theorem whole_of_include (h : Listed index files) (ha : Agrees index files selection selected)
    (hpath : path ∈ selectedIncludes index selected) : Whole files selection path :=
  (whole_iff h ha).mpr (full_of_include h.indexed ha.among hpath)

/-- A path whose subtree is selected is at or below an include. -/
theorem include_of_whole (h : Listed index files) (ha : Agrees index files selection selected)
    (hnode : node ∈ index.nodes) (hwhole : Whole files selection node.path) :
    ∃ path ∈ selectedIncludes index selected, Contains path node.path :=
  include_of_full h.indexed ha.among hnode ((whole_iff h ha).mp hwhole)

/-! ## The counts -/

theorem sum_map_ite {α : Type} {cond : α → Bool} {f : α → Nat} {list : List α} :
    (list.map fun a => if cond a then f a else 0).sum = ((list.filter cond).map f).sum := by
  induction list with
  | nil => rfl
  | cons a rest ih =>
      rw [List.map_cons, List.sum_cons, ih, List.filter_cons]
      split
      · rw [List.map_cons, List.sum_cons]
      · rw [Nat.zero_add]

theorem isRegular_entry (node : ManagedSnapshotNode) :
    (entry node).isRegular = (node.type == .file) := by
  unfold RestoreEntry.isRegular entry
  cases node.type <;> rfl

/-- The regular files that are selected, as the browser lists them. -/
theorem regular_perm (h : Listed index files) (ha : Agrees index files selection selected) :
    ((files.filter RestoreEntry.isRegular).filter fun file =>
      (selectedRestorePaths files selection).contains file.path).Perm
      ((selected.filter (·.type == .file)).map entry) := by
  have hselected : selected.Perm (index.nodes.filter fun node =>
      (selectedRestorePaths files selection).contains node.path) := by
    refine (List.perm_ext_iff_of_nodup ha.among.nodup (index.nodup.of_map _ |>.filter _)).mpr
      fun node => ?_
    rw [List.mem_filter, List.contains_iff_mem]
    constructor
    · intro hmem
      exact ⟨ha.among.subset node hmem, (ha.mem node (ha.among.subset node hmem)).mp hmem⟩
    · rintro ⟨hnode, hmem⟩
      exact (ha.mem node hnode).mpr hmem
  refine (((h.perm.filter _).filter _).trans ?_).trans ((hselected.filter _).map entry).symm
  rw [List.filter_map, List.filter_map, List.filter_comm,
    show RestoreEntry.isRegular ∘ entry = fun node => node.type == .file from
    funext isRegular_entry]
  exact .refl _

/-- The browser's summary counts what the server restores. -/
theorem stats_eq (h : Listed index files) (ha : Agrees index files selection selected) :
    let summary := restoreSelectionSummary files selection
    statsOf (selected.filter (·.type == .file)) = ⟨summary.files, summary.files,
      summary.bytes, summary.bytes⟩ := by
  have hperm := regular_perm h ha
  have hfiles : (restoreSelectionSummary files selection).files =
      (selected.filter (·.type == .file)).length := by
    unfold restoreSelectionSummary
    dsimp only
    rw [List.countP_eq_length_filter, hperm.length_eq, List.length_map]
  have hbytes : (restoreSelectionSummary files selection).bytes =
      ((selected.filter (·.type == .file)).map (·.size)).sum := by
    unfold restoreSelectionSummary
    dsimp only
    rw [sum_map_ite, (hperm.map RestoreEntry.size).sum_nat, List.map_map]
    rfl
  dsimp only
  rw [hfiles, hbytes]
  rfl

/-! ## What is restored -/

/-- What the server restores of a selection of the browser. -/
structure Restored (files : List RestoreEntry) (selection : RestoreSelection) (result : Selection) :
    Prop where
  full : result.full = false
  /-- The restored paths are those shown as selected. -/
  shown : ∀ path, path ∈ result.files.map (·.path) ↔ path ∈ selectedRestorePaths files selection
  /-- The includes cover nothing that is not selected. -/
  includes : ∀ path ∈ result.includes, ∀ file ∈ files, Contains path file.path →
    file.path ∈ selectedRestorePaths files selection
  /-- Each selected entry is covered by an include, or is a directory above one. -/
  covered : ∀ file ∈ files, file.path ∈ selectedRestorePaths files selection →
    ∃ path ∈ result.includes, Contains path file.path ∨
      file.isDirectory = true ∧ Contains file.path path
  /-- The summary counts the restored files. -/
  totalFiles : result.stats.totalFiles = (restoreSelectionSummary files selection).files
  filesRestored : result.stats.filesRestored = (restoreSelectionSummary files selection).files
  totalBytes : result.stats.totalBytes = (restoreSelectionSummary files selection).bytes
  bytesRestored : result.stats.bytesRestored = (restoreSelectionSummary files selection).bytes

/-- The refusals of a selection: for its size or a wildcard, and on Windows for a link or a name. -/
def Refusal (windows : Bool) (e : AppError) : Prop :=
  e = tooLarge ∨ e = tooLargeOrWildcard ∨ windows = true ∧ (e = specialNodes ∨ e = windowsName)

theorem ends_assertManagedRestorePath {windows : Bool} (h : Managed path) :
    (assertManagedRestorePath path windows).Ends (fun _ => True) (Refusal windows) := by
  have hmanaged : managedSnapshotPath path = .ok path := h
  unfold assertManagedRestorePath
  rw [hmanaged]
  refine .ite (fun hname => ?_) fun _ => trivial
  exact .inr (.inr ⟨(Bool.and_eq_true_iff.mp hname).1, .inr rfl⟩)

theorem ends_conclude {windows : Bool} (h : Listed index files)
    (ha : Agrees index files selection selected)
    (hstable : Stable Contains (paths files) (selectedSet files selection))
    (hsome : selectedRestorePaths files selection ≠ []) :
    (conclude windows index selected).Ends (Restored files selection) (Refusal windows) := by
  obtain ⟨first, hfirst⟩ := List.exists_mem_of_ne_nil _ hsome
  -- whatever is selected is above a subtree that is selected as a whole
  have hinclude : ∀ x ∈ selectedRestorePaths files selection,
      ∃ node ∈ index.nodes, Contains x node.path ∧
      Whole files selection node.path := by
    intro x hx
    obtain ⟨c, hc, hcontains, hwhole⟩ := hstable.below x hx
    obtain ⟨node, hnode, rfl⟩ := h.mem_paths.mp hc
    exact ⟨node, hnode, hcontains, hwhole⟩
  obtain ⟨node, hnode, -, hwhole⟩ := hinclude first hfirst
  obtain ⟨path, hpath, -⟩ := include_of_whole h ha hnode hwhole
  -- the refusals one after the other; two of them cannot happen here
  unfold conclude
  refine Except.ends_refuseIf (fun hspecial => ?_) fun _ => ?_
  · obtain ⟨file, hfile, hrefused⟩ := List.any_eq_true.mp hspecial
    refine .inr (.inr ⟨?_, .inl rfl⟩)
    unfold refusedType at hrefused
    rcases h.types file (ha.among.subset file hfile) with htype | htype | htype <;>
      rw [htype] at hrefused
    · simp at hrefused
    · simp at hrefused
    · simpa using hrefused
  refine (Except.ends_forM fun file hfile =>
    ends_assertManagedRestorePath (h.managed file (ha.among.subset file hfile))).bind fun _ _ => ?_
  refine Except.ends_refuseIf (fun hempty => ?_) fun _ => ?_
  · have hmem := (ha.mem node hnode).mpr (hwhole.mem h hnode)
    rw [List.isEmpty_iff.mp hempty] at hmem
    exact absurd hmem List.not_mem_nil
  refine Except.ends_refuseIf (fun _ => .inr (.inl rfl)) fun _ => ?_
  refine Except.ends_refuseIf (fun hempty => ?_) fun _ => ?_
  · rw [List.isEmpty_iff.mp hempty] at hpath
    exact absurd hpath List.not_mem_nil
  refine Except.ends_refuseIf (fun _ => .inl rfl) fun _ => ?_
  have hstats := stats_eq h ha
  refine {
    full := rfl
    shown := ?_
    includes := ?_
    covered := ?_
    totalFiles := congrArg RestoreStats.totalFiles hstats
    filesRestored := congrArg RestoreStats.filesRestored hstats
    totalBytes := congrArg RestoreStats.totalBytes hstats
    bytesRestored := congrArg RestoreStats.bytesRestored hstats }
  · intro x
    rw [List.mem_map]
    constructor
    · rintro ⟨node, hmem, rfl⟩
      exact (ha.mem node (ha.among.subset node hmem)).mp hmem
    · intro hx
      obtain ⟨node, hnode, rfl⟩ := h.mem_paths.mp (hstable.subset x hx)
      exact ⟨node, (ha.mem node hnode).mpr hx, rfl⟩
  · intro path hpath file hfile hcontains
    exact whole_of_include h ha hpath file.path ⟨file, hfile, rfl⟩ hcontains
  · intro file hfile hselected
    obtain ⟨node, hnode, hbelow, hwhole⟩ := hinclude file.path hselected
    obtain ⟨path, hpath, habove⟩ := include_of_whole h ha hnode hwhole
    refine ⟨path, hpath, ?_⟩
    rcases h.tree.eq_or_directory hfile (h.entry_mem hnode) hbelow with rfl | hdirectory
    · exact .inl habove
    · rcases linear_contains hbelow habove with hle | hge
      · exact .inr ⟨hdirectory, hle⟩
      · exact .inl hge

/-- The server restores what the browser shows of a selection that was reached by toggling,
that selects something but not everything, or refuses it: for its size or a wildcard, and
on Windows for a link or a name. -/
theorem select_agrees (windows : Bool) (index : ManagedSnapshotIndex) (files : List RestoreEntry)
    (h : Listed index files) (selection : RestoreSelection) (hreachable : Reachable files selection)
    (hsome : ∃ file ∈ files, file.path ∈ selectedRestorePaths files selection)
    (hnotall : ∃ file ∈ files, file.path ∉ selectedRestorePaths files selection) :
    (∀ result, select windows index (config selection) = .ok result →
      Restored files selection result) ∧
      ∀ e, select windows index (config selection) = .error e → Refusal windows e := by
  have hnamed := named_of_reachable hreachable
  have hends : (select windows index (config selection)).Ends
      (Restored files selection) (Refusal windows) := by
    unfold select
    refine Except.ends_refuseIf (fun hmissing => ?_) fun _ => ?_
    · obtain ⟨path, hpath, hnone⟩ := List.any_eq_true.mp hmissing
      obtain ⟨node, hnode, hsame⟩ := h.mem_paths.mp (hnamed path hpath)
      rw [get_eq_some.mpr ⟨hnode, hsame⟩] at hnone
      cases hnone
    · have hpartly :
          ((config selection).includes.isEmpty && (config selection).excludes.isEmpty) = false := by
        refine Bool.eq_false_iff.mpr fun hfull => ?_
        rw [Bool.and_eq_true, List.isEmpty_iff, List.isEmpty_iff] at hfull
        obtain ⟨includes, excludes⟩ := selection
        obtain ⟨rfl, rfl⟩ := hfull
        obtain ⟨file, hfile, hmissing⟩ := hnotall
        exact hmissing ((Set.ext_iff.mp (selectedSet_all h.tree) file.path).mpr ⟨file, hfile, rfl⟩)
      rw [hpartly, if_neg nofun]
      refine (ends_choose.mono (fun _ => id) fun e he => .inl he).bind fun selected hselected => ?_
      have ha : Agrees index files selection selected :=
        ⟨hselected.1, fun node hnode => by
          rw [hselected.2, and_iff_right hnode, chosen_iff h hnamed hnode]⟩
      refine ends_conclude h ha (hreachable.stable h.tree) ?_
      obtain ⟨file, -, hmem⟩ := hsome
      exact List.ne_nil_of_mem hmem
  exact ⟨fun _ => hends.of_ok, fun _ => hends.of_error⟩

/-! ## A tree without one of its files -/

/-- `/d` with a directory of a link and a file, and a directory of two files. -/
def sampleIndex : ManagedSnapshotIndex where
  nodes :=
    [⟨"/d", .dir, 0⟩, ⟨"/d/e", .dir, 0⟩, ⟨"/d/e/a", .symlink, 1⟩, ⟨"/d/e/b", .file, 2⟩,
      ⟨"/d/f", .dir, 0⟩, ⟨"/d/f/c", .file, 5⟩, ⟨"/d/f/g", .file, 3⟩]
  nodup := by decide

/-- The browser has the entries in another order. -/
def sampleFiles : List RestoreEntry := sampleIndex.nodes.reverse.map entry

theorem sampleFiles_listed : Listed sampleIndex sampleFiles where
  perm := (List.reverse_perm _).map entry
  managed := by decide +kernel
  leaf := by decide +kernel
  types := by decide

/-- Select All without `/d/e/b`. -/
def sampleSelection : RestoreSelection := toggleRestoreSelection sampleFiles .all "/d/e/b"

/-- Of `/d/e` the link is restored alone and `/d/f` as a whole, with the directories above. -/
theorem select_agrees_sample :
    Restored sampleFiles sampleSelection
      { files :=
          [⟨"/d/e/a", .symlink, 1⟩, ⟨"/d/f", .dir, 0⟩, ⟨"/d/f/c", .file, 5⟩, ⟨"/d/f/g", .file, 3⟩,
            ⟨"/d/e", .dir, 0⟩, ⟨"/d", .dir, 0⟩]
        includes := ["/d/f", "/d/e/a"]
        full := false
        stats := ⟨2, 2, 8, 8⟩ } :=
  (select_agrees false sampleIndex sampleFiles sampleFiles_listed sampleSelection
    (.toggle "/d/e/b" .all)
    (by decide +kernel) (by decide +kernel)).1 _ (by decide +kernel)

/-- On Windows the link is refused, which is neither for the size nor for a wildcard. -/
theorem select_refuses_link :
    Listed sampleIndex sampleFiles ∧ Reachable sampleFiles sampleSelection ∧
      "/d/e/a" ∈ selectedRestorePaths sampleFiles sampleSelection ∧
      select true sampleIndex (config sampleSelection) = .error specialNodes ∧
      specialNodes ≠ tooLarge ∧ specialNodes ≠ tooLargeOrWildcard :=
  ⟨sampleFiles_listed, .toggle "/d/e/b" .all, by decide +kernel, by decide +kernel,
    by decide, by decide⟩

end Pluton.Restore.Server
