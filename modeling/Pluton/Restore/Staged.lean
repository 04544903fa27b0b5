-- SUMMARY: When the restore of the includes is the returned selection, and is validated.
import Pluton.Restore.Includes
import Pluton.Restore.Validation

/-!
# Staged restores

A restore writes the nodes at or below an include and the directories above them. It is the
selection that `select` returned, and passes the validation, unless the exclusions emptied a
directory that is itself selected.
-/
namespace Pluton.Restore.Server

open Tar Posix

variable {index : ManagedSnapshotIndex} {selected : List ManagedSnapshotNode}
  {node other file : ManagedSnapshotNode} {config : RestoreConfig} {result : Selection}
  {windows : Bool} {path : String}

/-! ## What is restored -/

/-- A path is equal to or below an include. -/
def Within (includes : List String) (path : String) : Prop :=
  ∃ selected ∈ includes, contains selected path = true

/-- A node that a restore writes: at or below an include, or a directory above such a node. -/
def Reached (index : ManagedSnapshotIndex) (includes : List String) (node : ManagedSnapshotNode) :
    Prop :=
  Within includes node.path ∨ node.type = .dir ∧ ∃ other ∈ index.nodes,
    Within includes other.path ∧ Below node.path other.path

/-- A path is equal to or below an exclude. -/
def Excluded (config : RestoreConfig) (path : String) : Prop :=
  ∃ excluded ∈ config.excludes, contains excluded path = true

/-- A covered node with nodes below it has a covered one below it. -/
def NoneEmptied (index : ManagedSnapshotIndex) (config : RestoreConfig) : Prop :=
  ∀ node ∈ index.nodes, config.covers node.path = true →
    (∃ other ∈ index.nodes, Below node.path other.path) →
    ∃ other ∈ index.nodes, config.covers other.path = true ∧ Below node.path other.path

instance (includes : List String) (path : String) : Decidable (Within includes path) :=
  inferInstanceAs (Decidable (∃ selected ∈ includes, contains selected path = true))

instance (index : ManagedSnapshotIndex) (includes : List String) (node : ManagedSnapshotNode) :
    Decidable (Reached index includes node) :=
  inferInstanceAs (Decidable (_ ∨ _))

instance (index : ManagedSnapshotIndex) (config : RestoreConfig) :
    Decidable (NoneEmptied index config) :=
  inferInstanceAs (Decidable (∀ node ∈ index.nodes, _))

/-- The proof that the validation is given: only a selection with links needs one. -/
def linkProof (files : List ManagedSnapshotNode) (proof : String → Option ManagedExportEntry) :
    Option (String → Option ManagedExportEntry) :=
  if files.any (·.type == .symlink) then some proof else none

/-- The tree of a restore: what the includes cover, as the snapshot has it and the proof says,
and the directories above. -/
structure Staged (hash : List UInt8 → String) (proof : String → Option ManagedExportEntry)
    (index : ManagedSnapshotIndex) (includes : List String) (entries : List (String × Node)) :
    Prop where
  written : ∀ node ∈ index.nodes, Within includes node.path →
    ∃ found, (node.path, found) ∈ placed entries ∧ Fulfils hash (some proof) node found
  parents : ∀ node ∈ index.nodes, Within includes node.path → ∀ path, path ≠ "" →
    Below path node.path →
    ∃ children, (path, .dir children) ∈ placed entries
  only : ∀ found ∈ placed entries,
    (∃ node ∈ index.nodes, node.path = found.1 ∧ Within includes node.path ∧
      Fulfils hash (some proof) node found.2) ∨
      (∃ children, found.2 = .dir children) ∧ ∃ node ∈ index.nodes,
        Within includes node.path ∧ Below found.1 node.path

/-! ## Paths -/

theorem contains_iff_below {selection file : String} :
    contains selection file = true ↔ selection = file ∨ Below selection file := by
  rw [contains, Bool.or_eq_true, beq_iff_eq, startsWith_slash]

theorem below_trans {a b c : String} (h : Below a b) (h' : contains b c = true) : Below a c := by
  rcases contains_iff_below.mp h' with rfl | h'
  · exact h
  · exact h.trans ((List.prefix_append _ _).trans h')

theorem contains_trans {a b c : String} (h : contains a b = true) (h' : contains b c = true) :
    contains a c = true := by
  rcases contains_iff_below.mp h with rfl | h
  · exact h'
  · exact contains_iff_below.mpr (.inr (below_trans h h'))

theorem contains_refl (a : String) : contains a a = true := contains_iff_below.mpr (.inl rfl)

theorem Indexed.contains (h : Indexed index) (hnode : node ∈ index.nodes)
    (hother : other ∈ index.nodes) :
    contains node.path other.path = true ↔ Contains node.path other.path :=
  contains_iff (h.managed node hnode) (h.managed other hother)

theorem Indexed.ne_empty (h : Indexed index) (hnode : node ∈ index.nodes) : node.path ≠ "" := by
  intro heq
  obtain ⟨rest, hrest, -⟩ := (h.managed node hnode).rooted
  rw [heq] at hrest
  cases hrest

theorem ne_of_below {a b : String} (h : Below a b) : a ≠ b := by
  rintro rfl
  exact absurd h.length_le (by simp)

theorem Indexed.dir_of_below (h : Indexed index) (hnode : node ∈ index.nodes)
    (hother : other ∈ index.nodes) (hbelow : Below node.path other.path) : node.type = .dir :=
  h.leaf node hnode other hother
    ((h.contains hnode hother).mp (contains_iff_below.mpr (.inr hbelow))) (ne_of_below hbelow)

theorem mem_parentsOf_iff (h : Indexed index) (hnode : node ∈ index.nodes)
    (hfile : file ∈ index.nodes) :
    node.path ∈ parentsOf file.path ↔ Below node.path file.path := by
  rw [mem_parentsOf (h.managed node hnode) (h.managed file hfile),
    ← h.contains hnode hfile, contains_iff_below]
  exact ⟨fun hboth => hboth.1.resolve_left hboth.2, fun hbelow => ⟨.inr hbelow, ne_of_below hbelow⟩⟩

/-! ## What is covered -/

theorem not_excluded_of_covers (h : config.covers path = true) : ¬ Excluded config path := by
  rintro ⟨excluded, hmem, hcontains⟩
  unfold RestoreConfig.covers at h
  rw [Bool.and_eq_true, Bool.not_eq_true', List.any_eq_false] at h
  exact h.2 excluded hmem hcontains

theorem Excluded.below {other : String} (h : Excluded config path) (hbelow : Below path other) :
    Excluded config other := by
  obtain ⟨excluded, hmem, hcontains⟩ := h
  exact ⟨excluded, hmem, contains_trans hcontains (contains_iff_below.mpr (.inr hbelow))⟩

/-- The chosen nodes of a configuration: each is covered or above a covered one. -/
structure Chosen (index : ManagedSnapshotIndex) (config : RestoreConfig)
    (selected : List ManagedSnapshotNode) : Prop where
  among : Among index selected
  mem : ∀ {node}, node ∈ index.nodes →
    (node ∈ selected ↔ ∃ file ∈ index.nodes, config.covers file.path = true ∧
      contains node.path file.path = true)

theorem chosen_of_choose (h : Indexed index) (hchoose : choose index config = .ok selected) :
    Chosen index config selected := by
  have hends : (choose index config).Ends _ _ := ends_choose
  obtain ⟨hamong, hmem⟩ := hends.of_ok hchoose
  refine ⟨hamong, fun {node} hnode => ?_⟩
  rw [hmem node, and_iff_right hnode]
  constructor
  · rintro (hcovers | ⟨-, file, hfile, hcovers, hparent⟩)
    · exact ⟨node, hnode, hcovers, contains_refl node.path⟩
    · exact ⟨file, hfile, hcovers,
        contains_iff_below.mpr (.inr ((mem_parentsOf_iff h hnode hfile).mp hparent))⟩
  · rintro ⟨file, hfile, hcovers, hcontains⟩
    rcases contains_iff_below.mp hcontains with heq | hbelow
    · exact .inl (heq ▸ hcovers)
    · exact .inr ⟨h.dir_of_below hnode hfile hbelow, file, hfile, hcovers,
        (mem_parentsOf_iff h hnode hfile).mpr hbelow⟩

theorem Chosen.above (hc : Chosen index config selected) (hnode : node ∈ index.nodes)
    (hother : other ∈ selected) (hcontains : contains node.path other.path = true) :
    node ∈ selected := by
  obtain ⟨file, hfile, hcovers, hbelow⟩ := (hc.mem (hc.among.subset other hother)).mp hother
  exact (hc.mem hnode).mpr ⟨file, hfile, hcovers, contains_trans hcontains hbelow⟩

theorem Chosen.not_excluded (hc : Chosen index config selected) (hnode : node ∈ selected) :
    ¬ Excluded config node.path := by
  obtain ⟨file, hfile, hcovers, hcontains⟩ := (hc.mem (hc.among.subset node hnode)).mp hnode
  intro hexcluded
  refine not_excluded_of_covers hcovers ?_
  rcases contains_iff_below.mp hcontains with heq | hbelow
  · exact heq ▸ hexcluded
  · exact hexcluded.below hbelow

/-! ## What is reached -/

theorem within_include (h : Indexed index) (hc : Chosen index config selected)
    (hwithin : Within (selectedIncludes index selected) node.path) :
    ∃ top ∈ index.nodes, top.path ∈ selectedIncludes index selected ∧
      contains top.path node.path = true ∧
      Full index selected top.path := by
  obtain ⟨path, hpath, hcontains⟩ := hwithin
  obtain ⟨top, htop, rfl, -⟩ := include_node hc.among hpath
  exact ⟨top, htop, hpath, hcontains, full_of_include h hc.among hpath⟩

theorem mem_of_reached (h : Indexed index) (hc : Chosen index config selected)
    (hnode : node ∈ index.nodes) (hreached : Reached index (selectedIncludes index selected) node) :
    node ∈ selected := by
  have hwithin : ∀ {node}, node ∈ index.nodes →
      Within (selectedIncludes index selected) node.path → node ∈ selected := by
    intro node hnode hwithin
    obtain ⟨top, htop, -, hcontains, hfull⟩ := within_include h hc hwithin
    exact hfull node hnode ((h.contains htop hnode).mp hcontains)
  rcases hreached with hnodeWithin | ⟨-, other, hother, hotherWithin, hbelow⟩
  · exact hwithin hnode hnodeWithin
  · exact hc.above hnode (hwithin hother hotherWithin) (contains_iff_below.mpr (.inr hbelow))

theorem exists_bound {α : Type} (f : α → Nat) (list : List α) :
    ∃ bound, ∀ a ∈ list, f a ≤ bound := by
  induction list with
  | nil => exact ⟨0, nofun⟩
  | cons a list ih =>
      obtain ⟨bound, hbound⟩ := ih
      exact ⟨max (f a) bound, List.forall_mem_cons.mpr ⟨Nat.le_max_left _ _,
        fun b hb => (hbound b hb).trans (Nat.le_max_right _ _)⟩⟩

/-- Where no directory is emptied, a covered node has a fully chosen one at or below it. -/
theorem exists_full (h : Indexed index) (hc : Chosen index config selected)
    (hnone : NoneEmptied index config) (hnode : node ∈ index.nodes)
    (hcovers : config.covers node.path = true) :
    ∃ low ∈ index.nodes, contains node.path low.path = true ∧ Full index selected low.path := by
  obtain ⟨bound, hbound⟩ := exists_bound (fun node => node.path.toList.length) index.nodes
  -- the covered nodes below have longer and longer paths
  induction hroom : bound - node.path.toList.length using
    Nat.strong_induction_on generalizing node with
  | _ n ih =>
      by_cases hbelow : ∃ other ∈ index.nodes, Below node.path other.path
      · obtain ⟨other, hother, hother_covers, hother_below⟩ := hnone node hnode hcovers hbelow
        have hlonger : bound - other.path.toList.length < n := by
          have hlength := hother_below.length_le
          have hother_bound := hbound other hother
          rw [List.length_append, List.length_singleton] at hlength
          omega
        obtain ⟨low, hlow, hcontains, hfull⟩ := ih _ hlonger hother hother_covers rfl
        exact ⟨low, hlow, contains_trans (contains_iff_below.mpr (.inr hother_below)) hcontains,
          hfull⟩
      · refine ⟨node, hnode, contains_refl node.path, fun other hother hcontains => ?_⟩
        rcases contains_iff_below.mp ((h.contains hnode hother).mpr hcontains) with heq | hlow
        · rw [← node_unique hnode hother heq]
          exact (hc.mem hnode).mpr ⟨node, hnode, hcovers, contains_refl node.path⟩
        · exact absurd ⟨other, hother, hlow⟩ hbelow

/-- The nodes that are reached are the chosen ones exactly if no directory is emptied. -/
theorem reached_iff (h : Indexed index) (hc : Chosen index config selected) :
    (∀ node ∈ index.nodes, Reached index (selectedIncludes index selected) node ↔ node ∈ selected) ↔
    NoneEmptied index config := by
  constructor
  · intro hall node hnode hcovers hbelow
    by_contra hnone
    obtain ⟨other, hother, hbelow⟩ := hbelow
    -- nothing below the node is chosen
    have hmissing : ∀ low ∈ index.nodes, Below node.path low.path → low ∉ selected := by
      intro low hlow hlow_below hlow_mem
      obtain ⟨file, hfile, hfile_covers, hcontains⟩ := (hc.mem hlow).mp hlow_mem
      exact hnone ⟨file, hfile, hfile_covers, below_trans hlow_below hcontains⟩
    rcases (hall node hnode).mpr
      ((hc.mem hnode).mpr ⟨node, hnode, hcovers, contains_refl node.path⟩) with
      hwithin | ⟨-, low, hlow, hwithin, hlow_below⟩
    · obtain ⟨top, htop, -, hcontains, hfull⟩ := within_include h hc hwithin
      have habove := contains_trans hcontains (contains_iff_below.mpr (.inr hbelow))
      exact hmissing other hother hbelow (hfull other hother ((h.contains htop hother).mp habove))
    · exact hmissing low hlow hlow_below (mem_of_reached h hc hlow (.inl hwithin))
  · intro hnone node hnode
    refine ⟨mem_of_reached h hc hnode, fun hmem => ?_⟩
    obtain ⟨file, hfile, hcovers, hcontains⟩ := (hc.mem hnode).mp hmem
    obtain ⟨low, hlow, hfile_low, hfull⟩ := exists_full h hc hnone hfile hcovers
    obtain ⟨path, hpath, hinclude⟩ := include_of_full h hc.among hlow hfull
    obtain ⟨top, htop, rfl, -⟩ := include_node hc.among hpath
    have hnode_low := (h.contains hnode hlow).mp (contains_trans hcontains hfile_low)
    rcases linear_contains hnode_low hinclude with habove | hbelow
    · rcases contains_iff_below.mp ((h.contains hnode htop).mpr habove) with heq | hbelow
      · exact .inl ⟨top.path, hpath, heq ▸ contains_refl node.path⟩
      · exact .inr ⟨h.dir_of_below hnode htop hbelow, top, htop,
          ⟨top.path, hpath, contains_refl top.path⟩, hbelow⟩
    · exact .inl ⟨top.path, hpath, (h.contains htop hnode).mpr hbelow⟩

/-! ## The selection and its restore -/

theorem select_granular (hselect : select windows index config = .ok result)
    (hfull : result.full = false) :
    choose index config = .ok result.files ∧ result.includes = selectedIncludes index result.files ∧
      ∀ node ∈ result.files, refusedType windows node.type = false := by
  unfold select at hselect
  simp only [Except.bind_eq_ok, Except.refuseIf_eq_ok, exists_const] at hselect
  obtain ⟨-, hselect⟩ := hselect
  split at hselect
  · unfold selectFull at hselect
    simp only [Except.bind_eq_ok, Except.pure_eq_ok] at hselect
    obtain ⟨-, -, -, -, rfl⟩ := hselect
    cases hfull
  · obtain ⟨selected, hchoose, hconclude⟩ := Except.bind_eq_ok.mp hselect
    unfold conclude at hconclude
    simp only [Except.bind_eq_ok, Except.refuseIf_eq_ok, Except.pure_eq_ok,
      exists_const] at hconclude
    obtain ⟨htypes, -, -, -, -, -, -, rfl⟩ := hconclude
    exact ⟨hchoose, rfl, fun node hnode =>
      eq_false_of_ne_true (List.any_eq_false.mp htypes node hnode)⟩

theorem counted_of_not_refused {type : NodeType} (h : refusedType windows type = false) :
    Counted type := by
  unfold refusedType at h
  rw [Bool.or_eq_false_iff] at h
  cases type <;> simp_all [Counted]

/-- A chosen node that is as the proof says is as the given proof says. -/
theorem fulfils_linkProof {hash : List UInt8 → String} {proof : String → Option ManagedExportEntry}
    {found : Node} (hmem : node ∈ selected) (h : Fulfils hash (some proof) node found) :
    Fulfils hash (linkProof selected proof) node found := by
  unfold linkProof
  split
  · exact h
  next hlinks =>
    cases found with
    | file content => exact ⟨h.1, h.2.1, nofun⟩
    | dir children => exact h
    | other => exact h
    | symlink target => exact absurd (List.any_eq_true.mpr ⟨node, hmem, by simpa using h.1⟩) hlinks

/-- A restore of the includes passes the validation against the chosen nodes. -/
theorem staged_exact (h : Indexed index) (hc : Chosen index config selected)
    {hash : List UInt8 → String} {proof : String → Option ManagedExportEntry}
    {entries : List (String × Node)}
    (hreached : ∀ node ∈ index.nodes, Reached index (selectedIncludes index selected) node ↔
      node ∈ selected)
    (hstaged : Staged hash proof index (selectedIncludes index selected) entries) :
    Exact hash (linkProof selected proof) selected entries := by
  have hwithin : ∀ node ∈ index.nodes, Within (selectedIncludes index selected) node.path →
      node ∈ selected :=
    fun node hnode hwithin => (hreached node hnode).mp (.inl hwithin)
  constructor
  · intro file hfile
    have hmem := hc.among.subset file hfile
    rcases (hreached file hmem).mpr hfile with hfileWithin | ⟨htype, other, hother,
      hotherWithin, hbelow⟩
    · obtain ⟨found, hplaced, hfulfils⟩ := hstaged.written file hmem hfileWithin
      exact ⟨found, hplaced, fulfils_linkProof hfile hfulfils⟩
    · obtain ⟨children, hplaced⟩ :=
        hstaged.parents other hother hotherWithin file.path (h.ne_empty hmem) hbelow
      exact ⟨.dir children, hplaced, htype⟩
  · intro found hfound
    rcases hstaged.only found hfound with
      ⟨node, hnode, hpath, hnodeWithin, hfulfils⟩ | ⟨hdir, node, hnode, hnodeWithin, hbelow⟩
    · have hmem := hwithin node hnode hnodeWithin
      exact .inl ⟨node, hmem, hpath, fulfils_linkProof hmem hfulfils⟩
    · by_cases hexpected : ∃ file ∈ selected, file.path = found.1
      · obtain ⟨file, hfile, hpath⟩ := hexpected
        obtain ⟨children, hdir⟩ := hdir
        rw [hdir]
        refine .inl ⟨file, hfile, hpath, ?_⟩
        exact h.dir_of_below (hc.among.subset file hfile) hnode (hpath ▸ hbelow)
      · refine .inr ⟨hdir, fun file hfile hpath => hexpected ⟨file, hfile, hpath⟩, node,
          hwithin node hnode hnodeWithin, hbelow⟩

/-- A granular selection is what the restore of its includes writes, and always passes the
validation then, exactly if the exclusions leave something below each covered directory that
had something below it. -/
theorem select_realised (windows : Bool) (index : ManagedSnapshotIndex) (h : Indexed index)
    (config : RestoreConfig) (result : Selection)
    (hselect : select windows index config = .ok result) (hgranular : result.full = false) :
    ((∀ node, node ∈ index.nodes ∧ Reached index result.includes node ↔ node ∈ result.files) ∧
        (∀ hash proof, ∀ tree : FileTree,
          (∃ entries, tree.root = .dir entries ∧ Staged hash proof index result.includes entries) →
          ∃ measured, validateRestoredFiles hash (expectedOfList result.files)
            (linkProof result.files proof) tree.root =
            .ok measured) ∧
        ∀ node ∈ index.nodes, Excluded config node.path → ¬ Reached index result.includes node) ↔
      NoneEmptied index config := by
  obtain ⟨hchoose, hincludes, htypes⟩ := select_granular hselect hgranular
  have hc := chosen_of_choose h hchoose
  rw [hincludes, ← reached_iff h hc]
  constructor
  · rintro ⟨hall, -, -⟩ node hnode
    rw [← hall node, and_iff_right hnode]
  · intro hreached
    refine ⟨fun node => ?_, ?_, ?_⟩
    · constructor
      · exact fun hboth => (hreached node hboth.1).mp hboth.2
      · exact fun hmem => ⟨hc.among.subset node hmem,
          (hreached node (hc.among.subset node hmem)).mpr hmem⟩
    · rintro hash proof tree ⟨entries, hroot, hstaged⟩
      have hnodup : (result.files.map (·.path)).Nodup :=
        hc.among.nodup.map_on fun a ha b hb =>
          node_unique (hc.among.subset a ha) (hc.among.subset b hb)
      have hproper : ProperEntries entries := by
        have hproper := tree.proper
        rwa [hroot, Node.Proper] at hproper
      rw [hroot]
      exact (validate_iff_exact (expectedOfList_shows hnodup) hnodup
        (fun file hfile => counted_of_not_refused (htypes file hfile)) hproper).mpr
        (staged_exact h hc hreached hstaged)
    · exact fun node hnode hexcluded hnodeReached =>
        hc.not_excluded ((hreached node hnode).mp hnodeReached) hexcluded

/-! ## A directory whose only file is excluded -/

/-- A directory with two files and a file beside it. -/
def stagedIndex : ManagedSnapshotIndex :=
  ⟨[⟨"/a", .dir, 0⟩, ⟨"/a/x", .file, 1⟩, ⟨"/a/y", .file, 1⟩, ⟨"/b", .file, 1⟩], by decide⟩

theorem stagedIndex_indexed : Indexed stagedIndex := ⟨by decide +kernel, by decide +kernel⟩

/-- One of the two files is excluded: the other one and the file beside are restored. -/
theorem select_realised_sample : NoneEmptied stagedIndex ⟨[], ["/a/x"]⟩ ∧
    ∀ node, node ∈ stagedIndex.nodes ∧ Reached stagedIndex ["/a/y", "/b"] node ↔
      node ∈ [⟨"/a", .dir, 0⟩, ⟨"/a/y", .file, 1⟩, ⟨"/b", .file, 1⟩] := by
  have hnone : NoneEmptied stagedIndex ⟨[], ["/a/x"]⟩ := by decide +kernel
  exact ⟨hnone, ((select_realised false stagedIndex stagedIndex_indexed ⟨[], ["/a/x"]⟩
    ⟨[⟨"/a", .dir, 0⟩, ⟨"/a/y", .file, 1⟩, ⟨"/b", .file, 1⟩], ["/a/y", "/b"], false, ⟨2, 2, 2, 2⟩⟩
    (by decide +kernel) rfl).mpr hnone).1⟩

/-- Both files are excluded, one by one: the directory is selected but not restored, and the
validation of what is restored fails. -/
theorem emptied_directory_not_restored :
    Indexed stagedIndex ∧
      select false stagedIndex ⟨[], ["/a/x", "/a/y"]⟩ =
        .ok ⟨[⟨"/a", .dir, 0⟩, ⟨"/b", .file, 1⟩], ["/b"], false, ⟨1, 1, 1, 1⟩⟩ ∧
      ¬ Reached stagedIndex ["/b"] ⟨"/a", .dir, 0⟩ ∧
      ∀ hash proof, Fulfils hash (some proof) ⟨"/b", .file, 1⟩ (.file [98]) →
        Staged hash proof stagedIndex ["/b"] [("b", .file [98])] ∧
        validateRestoredFiles hash (expectedOfList [⟨"/a", .dir, 0⟩, ⟨"/b", .file, 1⟩]) none
          (.dir [("b", .file [98])]) =
          .error .restoredFileCountMismatch := by
  refine ⟨stagedIndex_indexed, by decide +kernel, by decide +kernel,
    fun hash proof hfulfils => ⟨?_, rfl⟩⟩
  have hplaced : placed [("b", .file [98])] = [("/b", .file [98])] := by
    simp [placed, listed, Node.inside, ofNames]
  have honly : ∀ node ∈ stagedIndex.nodes, Within ["/b"] node.path →
      node = ⟨"/b", .file, 1⟩ := by decide +kernel
  refine ⟨fun node hnode hwithin => ?_, fun node hnode hwithin path hpath hbelow => ?_,
    fun found hfound => ?_⟩
  · obtain rfl := honly node hnode hwithin
    exact ⟨.file [98], hplaced ▸ List.mem_cons_self, hfulfils⟩
  · obtain rfl := honly node hnode hwithin
    refine absurd (String.toList_eq_nil_iff.mp ?_) hpath
    have hslash : path.toList ++ ['/'] <+: ['/', 'b'] := hbelow
    cases hcase : path.toList with
    | nil => rfl
    | cons ch rest =>
        rw [hcase, List.cons_append, List.cons_prefix_cons] at hslash
        have hmem : '/' ∈ ['b'] := hslash.2.subset (by simp)
        exact absurd hmem (by decide)
  · rw [hplaced, List.mem_singleton] at hfound
    subst hfound
    exact .inl ⟨⟨"/b", .file, 1⟩, by decide, rfl, by decide +kernel, hfulfils⟩

end Pluton.Restore.Server
