-- SUMMARY: What a finished preparation has emitted are export entries, with links inside.
import Pluton.SnapshotIndex.Manifest
import Pluton.Tar.Completeness
import Pluton.Tar.LinkGraph

/-!
# Links of a prepared export

An export reads a manifest that was built, so nothing lies below a node that is no directory. The
reader takes only entries of its nodes, with safe paths and checked targets, and a preparation
that succeeds has emitted an entry for every node that the mode includes. So the lookup with which
it walks its links at the end is the one of the emitted entries, whatever runs failed before it.
-/
namespace Pluton.Tar

open Posix

/-- Nothing lies below a node that is no directory. -/
def ManagedSnapshotIndex.Leaves (index : ManagedSnapshotIndex) : Prop :=
  ∀ node ∈ index.nodes, ∀ other ∈ index.nodes, namesOf node.path <+: namesOf other.path →
    node.path ≠ other.path → node.type = .dir

section
variable {env : Platform} {index : ManagedSnapshotIndex} {mode : ManagedExportMode}
  {p q : ManagedExportProof} {emitted : List Emitted} {path : String} {entry : ManagedExportEntry}

/-! ## What a proof knows -/

theorem ManagedExportProof.mem_known (h : p.lookup path = some entry) :
    entry ∈ p.known ∧ entry.path = path := by
  rcases Option.or_eq_some_iff.mp h with hpending | ⟨-, hstored⟩
  · exact ⟨List.mem_append_left _ (List.mem_of_find?_eq_some hpending), by
      simpa using List.find?_some hpending⟩
  · exact ⟨List.mem_append_right _ (List.mem_of_find?_eq_some hstored), by
      simpa using List.find?_some hstored⟩

/-- Also a run that fails adds only entries of the index. -/
theorem ExportRun.after_fits (h : ∀ e ∈ p.known, Fits index e) (runs : List ExportRun) :
    ∀ e ∈ (ExportRun.after env index p runs).known, Fits index e := by
  induction runs generalizing p with
  | nil => exact h
  | cons run runs ih =>
      have hgrows : (run.start index p).Grows (Fits index) (run.result env index p).2 :=
        run.result_grows
      refine ih fun e he => (hgrows.added e he).elim (fun hstart => ?_) id
      unfold ExportRun.start at hstart
      split at hstart
      · exact h e (List.mem_append_right _ hstart)
      · exact h e hstart

/-! ## What a preparation has emitted -/

/-- The emitted entries of a finished preparation, which are the ones that its proof knows. -/
theorem Outcome.exportEntries (h : Outcome env index false p q emitted) (hq : Of index mode q)
    (hcount : p.expected = (index.includedNodes mode).length) (hleaves : index.Leaves)
    (hfits : ∀ e ∈ q.known, Fits index e) :
    ∃ set : ExportEntries, set.entries = emitted.map (·.entry) ∧ set.get = q.get := by
  have hdescribes : ∀ x ∈ emitted, Describes index q.mode x.entry x.header := fun x hx =>
    (h.closed x hx).describes
  have hmem : ∀ e ∈ emitted.map (·.entry), ∃ x ∈ emitted, x.entry = e :=
    fun e he => List.mem_map.mp he
  let set : ExportEntries :=
    { entries := emitted.map (·.entry)
      nodup := by
        rw [List.map_map]
        exact h.nodup
      safe := fun e he => by
        obtain ⟨x, hx, rfl⟩ := hmem e he
        exact (hdescribes x hx).safe
      checked := fun e he => by
        obtain ⟨x, hx, rfl⟩ := hmem e he
        exact (hdescribes x hx).checked
      leaves := fun e he other hother hbelow hne => by
        obtain ⟨x, hx, rfl⟩ := hmem e he
        obtain ⟨y, hy, rfl⟩ := hmem other hother
        obtain ⟨node, hnode, hpath, htype, -⟩ := (hdescribes x hx).node
        obtain ⟨node', hnode', hpath', -⟩ := (hdescribes y hy).node
        rw [← hpath, ← hpath'] at hbelow hne
        exact htype ▸ hleaves node hnode node' hnode' hbelow hne }
  refine ⟨set, rfl, funext fun path => ?_⟩
  cases hheld : set.get path with
  | some e =>
      obtain ⟨x, hx, rfl⟩ := hmem e (ExportEntries.mem_of_get hheld)
      obtain rfl : x.entry.path = path := ExportEntries.keyed _ _ hheld
      exact (Option.filter_eq_some_iff.mpr ⟨(h.closed x hx).recorded rfl,
        (hdescribes x hx).selected⟩).symm
  | none =>
      cases hknown : q.get path with
      | none => rfl
      | some e =>
          -- an entry of a run that failed has the path of an emitted one
          obtain ⟨hlookup, hselected⟩ := Option.filter_eq_some_iff.mp hknown
          obtain ⟨hmem', rfl⟩ := ManagedExportProof.mem_known hlookup
          obtain ⟨node, hnode, hpath, htype, -⟩ := (hfits e hmem').node
          have hincluded : node ∈ index.includedNodes mode := by
            rw [ManagedSnapshotIndex.includedNodes, List.mem_filter, htype, ← hq.mode]
            exact ⟨hnode, hselected⟩
          obtain ⟨x, hx, hshape⟩ := List.mem_map.mp
            ((h.shapes_perm hq.mode hcount).symm.subset (List.mem_map_of_mem hincluded))
          have hsame : x.entry.path = e.path := (congrArg Prod.fst hshape).trans hpath
          have hfound : set.get x.entry.path = some x.entry :=
            ExportEntries.get_of_mem (List.mem_map_of_mem hx)
          rw [hsame, hheld] at hfound
          exact nomatch hfound

end

end Pluton.Tar

namespace Pluton.SnapshotIndex

open Posix Tar

/-! ## Over a built manifest -/

/-- The manifest as an export reads it. -/
def Manifest.exportIndex (manifest : Manifest) : ManagedSnapshotIndex where
  nodes := manifest.rows.map fun row => ⟨row.path, row.type, row.size⟩
  nodup := by
    rw [List.map_map]
    exact manifest.nodup

section
variable {dateParse : String → Option Int} {limits : BuildLimits} {storage : Storage}
  {nodes : List SnapshotNode} {manifest : Manifest}

theorem leaves_exportIndex (hlimits : WithinLimits dateParse limits storage nodes)
    (hbuild : build dateParse limits storage nodes = .ok manifest) :
    manifest.exportIndex.Leaves := by
  obtain ⟨hvalid, hrows⟩ := (build_eq_ok hlimits).mp hbuild
  have hmem : ∀ node ∈ manifest.exportIndex.nodes, ∃ given ∈ nodes,
      given.path = node.path ∧ given.type = node.type := by
    intro node hnode
    obtain ⟨row, hrow, rfl⟩ := List.mem_map.mp hnode
    rw [hrows] at hrow
    obtain ⟨given, hgiven, rfl⟩ := List.mem_map.mp hrow
    exact ⟨given, hgiven, rfl, rfl⟩
  intro node hnode other hother hnames hne
  obtain ⟨given, hgiven, hpath, htype⟩ := hmem node hnode
  obtain ⟨given', hgiven', hpath', -⟩ := hmem other hother
  rw [← hpath, ← hpath'] at hnames hne
  have hsafe := (hvalid.node given hgiven).path
  have hsafe' := (hvalid.node given' hgiven').path
  have hbelow : Below given.path given'.path := by
    rw [← hsafe.ofNames_namesOf, ← hsafe'.ofNames_namesOf]
    refine (below_ofNames_iff (namesOf_ne_nil _) hsafe.isName hsafe'.isName).mpr
      ⟨hnames, fun heq => hne ?_⟩
    rw [← hsafe.ofNames_namesOf, heq, hsafe'.ofNames_namesOf]
  exact htype ▸ hvalid.tree given hgiven given' hgiven' hbelow

/-- The links of a preparation that succeeds stay inside the export, whatever ran before it over
the database of its index. -/
theorem preparation_contained (hlimits : WithinLimits dateParse limits storage nodes)
    (hbuild : build dateParse limits storage nodes = .ok manifest) (env : Platform)
    (binding : ManagedExportBinding) (mode : ManagedExportMode) (earlier : List ExportRun)
    (prepare : ExportRun) (hprepare : prepare.compare = false) (exported : Exported)
    (hok : (prepare.result env manifest.exportIndex (ExportRun.after env manifest.exportIndex
      (manifest.exportIndex.exportProof ⟨[], [], []⟩ binding mode) earlier)).1 = .ok exported) :
    ∃ set : ExportEntries, set.entries = exported.emitted.map (·.entry) ∧
      ∀ link ∈ set.entries, link.type = .symlink → Contained set.get ⟨[], namesOf link.path⟩ := by
  generalize hbefore : ExportRun.after env manifest.exportIndex
    (manifest.exportIndex.exportProof ⟨[], [], []⟩ binding mode) earlier = before at hok
  have hcreated : Of manifest.exportIndex mode
      (manifest.exportIndex.exportProof ⟨[], [], []⟩ binding mode) := ⟨rfl, rfl⟩
  have hof : Of manifest.exportIndex mode before := hbefore ▸ hcreated.after earlier
  have hempty : ∀ e ∈ (manifest.exportIndex.exportProof ⟨[], [], []⟩ binding mode).known,
      Tar.Fits manifest.exportIndex e :=
    fun e he => absurd he List.not_mem_nil
  have hknown : ∀ e ∈ before.known, Tar.Fits manifest.exportIndex e :=
    hbefore ▸ ExportRun.after_fits hempty earlier
  have houtcome := prepare.result_outcome hok
  rw [hprepare] at houtcome
  obtain ⟨hnone, hpending, hchecked, -⟩ := houtcome.prepared rfl
  have hcount : (prepare.start manifest.exportIndex before).expected =
      (manifest.exportIndex.includedNodes mode).length := by
    unfold ManagedExportProof.expected
    rw [hnone]
    exact (hof.start prepare).total
  obtain ⟨set, hentries, hget⟩ := houtcome.exportEntries (hof.result prepare) hcount
    (leaves_exportIndex hlimits hbuild) (ExportRun.after_fits hknown [prepare])
  refine ⟨set, hentries, fun link hlink hsymlink => ExportEntries.contained_link hlink hsymlink ?_⟩
  refine contained_start ExportEntries.keyed ?_
  rw [hget]
  refine hchecked link ?_ hsymlink
  rw [hentries] at hlink
  obtain ⟨x, hx, rfl⟩ := List.mem_map.mp hlink
  have hstored := (ManagedExportProof.mem_known ((houtcome.closed x hx).recorded rfl)).1
  rw [ManagedExportProof.known, hpending, List.nil_append] at hstored
  exact List.mem_filter.mpr ⟨(List.mem_insertionSort _).mpr hstored,
    (houtcome.closed x hx).describes.selected⟩

end

end Pluton.SnapshotIndex
