-- SUMMARY: A successful export emits exactly the included nodes, and a transfer the prepared ones.
import Pluton.Tar.Reader
import Pluton.Tar.Chunking
import Pluton.Tar.Record
import Pluton.Tar.SafePaths

/-!
# Completeness of an export

Nothing compares the archive with the index as sets. A header is looked up in the index,
its path is marked as seen, and at the end the entries are counted; since no path is
marked twice, the count leaves no node out. A transfer finds, for each of its entries,
the entry that the preparation recorded under the same path.
-/
namespace Pluton.Tar

open Chunked

/-! ## What an entry says -/

/-- The entry belongs to a node of the index. Its path is safe, and as a link it has a checked
target. -/
structure Fits (index : ManagedSnapshotIndex) (entry : ManagedExportEntry) : Prop where
  node : ∃ node ∈ index.nodes, node.path = entry.path ∧ node.type = entry.type ∧
    (entry.type = .file → entry.size = node.size)
  safe : SafePath entry.path
  checked : entry.type = .symlink →
    assertManagedLinkTarget entry.path (entry.linkTarget.getD "") = .ok ()

/-- The mode includes the entry, and the header belongs to it. -/
structure Describes (index : ManagedSnapshotIndex) (mode : ManagedExportMode)
    (entry : ManagedExportEntry) (header : PackedHeader) : Prop extends Fits index entry where
  selected : exportIncludes mode entry.type = true
  size : entry.size = entry.metadata.size
  link : entry.linkTarget = entry.metadata.linkname
  header : ∃ name, entry.path = "/" ++ name ∧ header = packedHeader name entry.metadata

section
variable {index : ManagedSnapshotIndex} {proof : ManagedExportProof} {compare : Bool} {h : Bytes}
  {magic : Magic} {flag : Char} {pax : Pax} {name linkname : String} {node : ManagedSnapshotNode}
  {size : Nat}

theorem readMetadata_ok {type : NodeType} {metadata : Metadata}
    (hread : readMetadata h magic pax type size linkname = .ok metadata) :
    metadata.size = size ∧ metadata.linkname = if type ==
      .symlink then some linkname else none := by
  have hends : (readMetadata h magic pax type size linkname).Ends
      (fun m => m.size = size ∧ m.linkname = if type == .symlink then some linkname else none)
      fun _ => True := by
    unfold readMetadata
    refine Except.ends_bind (fun times _ => ?_) fun _ _ => trivial
    refine Except.ends_bind (fun extra _ => ?_) fun _ _ => trivial
    refine Except.ends_bind (fun mtime _ => ?_) fun _ _ => trivial
    refine Except.ends_bind (fun mode _ => ?_) fun _ _ => trivial
    refine Except.ends_bind (fun uid _ => ?_) fun _ _ => trivial
    refine Except.ends_bind (fun gid _ => ?_) fun _ _ => trivial
    refine Except.ends_bind (fun uname _ => ?_) fun _ _ => trivial
    refine Except.ends_bind (fun gname _ => ?_) fun _ _ => trivial
    exact Except.Ends.ite (fun _ => trivial) fun _ => ⟨rfl, rfl⟩
  exact hends.of_ok hread

theorem indexedNode_ok (hnode : indexedNode index flag name = .ok node) :
    node ∈ index.nodes ∧ node.path = "/" ++ name ∧ SafePath node.path := by
  have hends : (indexedNode index flag name).Ends
      (fun node => node ∈ index.nodes ∧ node.path = "/" ++ name ∧ SafePath node.path) fun _ =>
        True := by
    unfold indexedNode
    refine Except.ends_bind (fun filePath hpath => ?_) fun _ _ => trivial
    obtain ⟨hsame, hsafe⟩ := managedSnapshotPath_eq_ok.mp hpath
    cases hget : index.get filePath with
    | none => trivial
    | some found =>
        apply Except.Ends.ite
        · exact fun _ => trivial
        · intro _
          have hfound : found.path = filePath := by simpa using List.find?_some hget
          exact ⟨List.mem_of_find?_eq_some hget, hfound.trans hsame, hfound.trans hsame ▸ hsafe⟩
  exact hends.of_ok hnode

end

/-- The entry under way, between its header and the end of its payload. -/
structure Current.Open (index : ManagedSnapshotIndex) (compare : Bool) (proof : ManagedExportProof)
    (c : Current) : Prop where
  describes : Describes index proof.mode c.entry c.header
  hash : c.hash = if c.entry.type = .file then some c.payload else none
  compared : compare = true → ∃ e, proof.get c.entry.path = some e ∧ e.metadata = c.entry.metadata

/-- An emitted entry: its digest is the payload's, and the proof knows it. -/
structure Emitted.Closed (env : Platform) (index : ManagedSnapshotIndex) (compare : Bool)
    (proof : ManagedExportProof) (x : Emitted) : Prop where
  describes : Describes index proof.mode x.entry x.header
  sha256 : x.entry.sha256 = if x.entry.type = .file then some (env.sha256 x.payload) else none
  recorded : compare = false → proof.lookup x.entry.path = some x.entry
  compared : compare = true → ∃ e, proof.get x.entry.path = some e ∧
    e.metadata = x.entry.metadata ∧ e.sha256 = x.entry.sha256

section
variable {env : Platform} {index : ManagedSnapshotIndex} {compare : Bool} {p q : ManagedExportProof}

theorem Current.Open.mono {c : Current} (hopen : c.Open index compare p)
    (h : p.Grows (Fits index) q) :
    c.Open index compare q where
  describes := h.mode.symm ▸ hopen.describes
  hash := hopen.hash
  compared := fun hc => by
    obtain ⟨e, he, hmetadata⟩ := hopen.compared hc
    exact ⟨e, h.get he, hmetadata⟩

theorem Emitted.Closed.mono {x : Emitted} (hclosed : x.Closed env index compare p)
    (h : p.Grows (Fits index) q) :
    x.Closed env index compare q where
  describes := h.mode.symm ▸ hclosed.describes
  sha256 := hclosed.sha256
  recorded := fun hc => h.lookup (hclosed.recorded hc)
  compared := fun hc => by
    obtain ⟨e, he, hsame⟩ := hclosed.compared hc
    exact ⟨e, h.get he, hsame⟩

theorem openEntry_ok {h : Bytes} {magic : Magic} {flag : Char} {pax : Pax} {name linkname : String}
    {node : ManagedSnapshotNode} {size : Nat} {c : Current} (hnode : node ∈ index.nodes)
    (hpath : node.path = "/" ++ name) (hsafe : SafePath node.path)
    (hselected : exportIncludes p.mode node.type = true)
    (hopen : openEntry p compare h magic flag pax name node size linkname = .ok c) :
    c.entry.path = node.path ∧ c.Open index compare p := by
  have hends : (openEntry p compare h magic flag pax name node size linkname).Ends
      (fun c => c.entry.path = node.path ∧ c.Open index compare p) fun _ => True := by
    unfold openEntry
    apply Except.Ends.ite
    · exact fun _ => trivial
    intro hshape
    refine Except.ends_bind (fun _ htarget => ?_) fun _ _ => trivial
    refine Except.ends_bind (fun metadata hmetadata => ?_) fun _ _ => trivial
    apply Except.Ends.ite
    · exact fun _ => trivial
    intro hsame
    obtain ⟨hsize, hlink⟩ := readMetadata_ok hmetadata
    have hfile : node.type = .file → size = node.size := by
      intro hfile
      simp only [Bool.or_eq_true, Bool.and_eq_true, beq_iff_eq, bne_iff_ne, ne_eq, not_or, not_and,
        not_not] at hshape
      exact hshape.2 hfile
    have hchecked : node.type = .symlink → assertManagedLinkTarget node.path
        ((if node.type == .symlink then some linkname else none).getD "") = .ok () :=
          fun hlink => by
      have hlink' : (node.type == .symlink) = true := beq_iff_eq.mpr hlink
      rw [checkTarget, if_pos hlink'] at htarget
      rw [if_pos hlink']
      exact htarget
    refine ⟨rfl, ⟨⟨⟨⟨node, hnode, rfl, rfl, hfile⟩, hsafe, hchecked⟩, hselected,
      hsize.symm, hlink.symm, name,
      hpath, rfl⟩, ?_, ?_⟩⟩
    · simp [beq_iff_eq]
    · intro hcompare
      have hget : (p.get node.path).map (·.metadata) = some metadata := by
        simpa [hcompare] using hsame
      obtain ⟨e, he, hmeta⟩ := Option.map_eq_some_iff.mp hget
      exact ⟨e, he, hmeta⟩
  exact hends.of_ok hopen

end

/-! ## The reader's invariant -/

namespace Reading

/-- The paths of the entry under way and of those that were emitted. -/
def paths (r : Reading) : List String :=
  r.current.toList.map (·.entry.path) ++ r.emitted.map (·.entry.path)

/-- What holds of a reading that began with the proof `base`. -/
structure Exact (env : Platform) (index : ManagedSnapshotIndex) (compare : Bool) (cursor : String)
    (base : ManagedExportProof) (r : Reading) : Prop where
  carries : base.Carries (Fits index) r.proof
  nodup : r.paths.Nodup
  seen : ∀ path ∈ r.paths, r.proof.Seen cursor path
  current : ∀ c ∈ r.current, c.Open index compare r.proof
  emitted : ∀ x ∈ r.emitted, x.Closed env index compare r.proof
  included : r.included = r.emitted.length

section
variable {env : Platform} {index : ManagedSnapshotIndex} {compare : Bool} {cursor : String}
  {base : ManagedExportProof} {r : Reading}

/-- The invariant holds at the end, and a failure leaves a later state of the proof. -/
def KeepsExact (env : Platform) (index : ManagedSnapshotIndex) (compare : Bool) (cursor : String)
    (base : ManagedExportProof) (x : Except Refusal Reading) : Prop :=
  x.Ends (Exact env index compare cursor base) fun refusal =>
    base.Carries (Fits index) refusal.proof

theorem Exact.later {next : Reading} {q : ManagedExportProof}
    (hr : Exact env index compare cursor base r) (hcarries : r.proof.Carries (Fits index) q)
    (hproof : next.proof = q) (hcurrent : next.current = r.current)
    (hemitted : next.emitted = r.emitted) (hincluded : next.included = r.included) :
    Exact env index compare cursor base next := by
  subst hproof
  have hpaths : next.paths = r.paths := by rw [paths, paths, hcurrent, hemitted]
  refine ⟨hr.carries.trans hcarries, ?_, ?_, ?_, ?_, ?_⟩
  · rw [hpaths]
    exact hr.nodup
  · rw [hpaths]
    exact fun path hpath => hcarries.seen (hr.seen path hpath)
  · rw [hcurrent]
    exact fun c hc => (hr.current c hc).mono hcarries.toGrows
  · rw [hemitted]
    exact fun x hx => (hr.emitted x hx).mono hcarries.toGrows
  · rw [hincluded, hemitted]
    exact hr.included

/-- A step that touches neither the proof nor the entries. -/
theorem Exact.quiet {next : Reading} (hr : Exact env index compare cursor base r)
    (hproof : next.proof = r.proof) (hcurrent : next.current = r.current)
    (hemitted : next.emitted = r.emitted) (hincluded : next.included = r.included) :
    Exact env index compare cursor base next :=
  hr.later (ManagedExportProof.Carries.refl r.proof) hproof hcurrent hemitted hincluded

theorem settle_ends (env : Platform) (p : ManagedExportProof) {entry : ManagedExportEntry}
    (hfits : Fits index entry) (hmeta : compare = true →
      ∃ held, p.get entry.path = some held ∧ held.metadata = entry.metadata) :
    (settle env compare p entry).Ends
      (fun q => p.Carries (Fits index) q ∧ (compare = false → q.lookup entry.path = some entry) ∧
        (compare = true → ∃ held, q.get entry.path = some held ∧ held.metadata = entry.metadata ∧
          held.sha256 = entry.sha256))
      fun refusal => p.Carries (Fits index) refusal.proof := by
  unfold settle
  cases compare with
  | true =>
      rw [if_pos rfl]
      apply Except.Ends.ite
      · exact fun _ => ManagedExportProof.Carries.refl p
      · intro hsame
        obtain ⟨held, hget, hmetadata⟩ := hmeta rfl
        have hsha : held.sha256 = entry.sha256 := by simpa [hget] using hsame
        exact ⟨ManagedExportProof.Carries.refl p, nofun, fun _ => ⟨held, hget, hmetadata, hsha⟩⟩
  | false =>
      apply (ManagedExportProof.append_ends hfits).mono
      · exact fun q hq => ⟨hq.1, fun _ => hq.2, nofun⟩
      · exact fun _ h => h

theorem finishCurrent_exact {c : Current} (hr : Exact env index compare cursor base r)
    (hc : r.current = some c) :
    KeepsExact env index compare cursor base (r.finishCurrent env compare c) := by
  have hopen := hr.current c hc
  have hfits : Fits index { c.entry with sha256 := c.hash.map env.sha256 } :=
    ⟨hopen.describes.node, hopen.describes.safe, hopen.describes.checked⟩
  have hsettle := settle_ends env r.proof hfits hopen.compared
  have hpaths : r.paths = c.entry.path :: r.emitted.map (·.entry.path) := by
    rw [paths, hc]
    rfl
  refine (hsettle.mono (fun _ h => h) fun _ h => hr.carries.trans h).bind fun q hq => ?_
  obtain ⟨hcarries, hrecorded, hcompared⟩ := hq
  have hclosed : Emitted.Closed env index compare q
      ⟨{ c.entry with sha256 := c.hash.map env.sha256 }, c.header, c.payload⟩ :=
    { describes :=
        have hd := (hopen.mono hcarries.toGrows).describes
        ⟨hfits, hd.selected, hd.size, hd.link, hd.header⟩
      sha256 := by
        show c.hash.map env.sha256 = _
        rw [hopen.hash]
        by_cases hfile : c.entry.type = .file <;> simp [hfile]
      recorded := hrecorded
      compared := hcompared }
  -- the entry under way is now the last one emitted
  have hperm : (r.emitted.map (·.entry.path) ++ [c.entry.path]).Perm r.paths := by
    rw [hpaths]
    exact List.perm_append_singleton _ _
  refine Except.ends_pure.mpr ⟨hr.carries.trans hcarries, ?_, ?_, (fun c hc => by cases hc), ?_, ?_⟩
  · simpa [paths] using hperm.nodup_iff.mpr hr.nodup
  · intro path hpath
    have hmem : path ∈ r.emitted.map (·.entry.path) ++ [c.entry.path] := by
      simpa [paths] using hpath
    exact hcarries.seen (hr.seen path (hperm.mem_iff.mp hmem))
  · intro x hx
    rcases List.mem_append.mp hx with hx | hx
    · exact (hr.emitted x hx).mono hcarries.toGrows
    · rw [List.mem_singleton.mp hx]
      exact hclosed
  · simp [hr.included]

theorem finishEntry_exact (hr : Exact env index compare cursor base r) :
    KeepsExact env index compare cursor base (r.finishEntry env compare) := by
  unfold finishEntry
  cases r.extendedType with
  | some extension =>
      apply ManagedExportProof.attempt_bind_ends
      · intro next hnext
        obtain ⟨pax, longName, longLink, rfl⟩ := finishExtension_eq hnext
        exact hr.quiet rfl rfl rfl rfl
      · exact fun _ => hr.carries
  | none =>
      cases hc : r.current with
      | none => exact hr
      | some c => exact finishCurrent_exact hr hc

/-- The new entry under way is not among those before it: its path was not marked yet. -/
theorem Exact.start {next : Reading} {q : ManagedExportProof} {path : String}
    (hr : Exact env index compare cursor base r) (hcarries : r.proof.Carries (Fits index) q)
    (hfree : ¬r.proof.Seen cursor path) (hmarked : q.Seen cursor path)
    (hopen : ∀ c ∈ next.current, c.entry.path = path ∧ c.Open index compare q)
    (hproof : next.proof = q) (hemitted : next.emitted = r.emitted)
    (hincluded : next.included = r.included) : Exact env index compare cursor base next := by
  subst hproof
  have hsub : r.emitted.map (·.entry.path) ⊆ r.paths := List.subset_append_right _ _
  have hemittedNodup : (r.emitted.map (·.entry.path)).Nodup := (List.nodup_append.mp hr.nodup).2.1
  refine ⟨hr.carries.trans hcarries, ?_, ?_, fun c hc => (hopen c hc).2, ?_, ?_⟩
  · rw [paths, hemitted]
    cases hc : next.current with
    | none => exact hemittedNodup
    | some c =>
        refine List.nodup_cons.mpr ⟨fun hmem => hfree ?_, hemittedNodup⟩
        rw [← (hopen c hc).1]
        exact hr.seen _ (hsub hmem)
  · intro x hx
    rw [paths, hemitted, List.mem_append] at hx
    rcases hx with hx | hx
    · cases hc : next.current with
      | none =>
          rw [hc] at hx
          cases hx
      | some c =>
          rw [hc] at hx
          have hxc : x = c.entry.path := by simpa using hx
          rw [hxc, (hopen c hc).1]
          exact hmarked
    · exact hcarries.seen (hr.seen x (hsub hx))
  · rw [hemitted]
    exact fun x hx => (hr.emitted x hx).mono hcarries.toGrows
  · rw [hincluded, hemitted]
    exact hr.included

theorem startEntry_exact (hr : Exact env index compare cursor base r) (h : Bytes) (magic : Magic)
    (flag : Char) (rawSize : Nat) :
    KeepsExact env index compare cursor base
      (r.startEntry env index compare cursor h magic flag rawSize) := by
  unfold startEntry
  refine ManagedExportProof.attempt_bind_ends (fun name _ => ?_) fun _ => hr.carries
  refine ManagedExportProof.attempt_bind_ends (fun node hnode => ?_) fun _ => hr.carries
  obtain ⟨hmem, hpath, hsafe⟩ := indexedNode_ok hnode
  have hseen : (r.proof.seen env cursor node.path).Ends
      (fun q => r.proof.Carries (Fits index) q ∧ ¬r.proof.Seen cursor node.path ∧
        q.Seen cursor node.path)
      fun refusal => base.Carries (Fits index) refusal.proof :=
    (ManagedExportProof.seen_ends cursor node.path).mono (fun _ h => h) fun _ h =>
      hr.carries.trans h
  refine hseen.bind fun q hq => ?_
  obtain ⟨hcarries, hfree, hmarked⟩ := hq
  refine ManagedExportProof.attempt_bind_ends (fun shape _ => ?_) fun _ => hr.carries.trans hcarries
  refine ManagedExportProof.attempt_bind_ends (fun current hcurrent => ?_)
    fun _ => hr.carries.trans hcarries
  have hopen : ∀ c ∈ current, c.entry.path = node.path ∧ c.Open index compare q := by
    intro c hc
    unfold openIncluded at hcurrent
    split at hcurrent
    next hselected =>
      cases hentry : openEntry q compare h magic flag (r.pax.getD []) name node shape.1 shape.2 with
      | error e =>
          rw [hentry] at hcurrent
          cases hcurrent
      | ok opened =>
          rw [hentry] at hcurrent
          obtain rfl : some opened = current := Except.ok.inj hcurrent
          obtain rfl : opened = c := Option.some.inj hc
          exact openEntry_ok hmem hpath hsafe hselected hentry
    next =>
      cases hcurrent
      cases hc
  have hnext : ∀ next : Reading, next.current = current → next.proof = q →
      next.emitted = r.emitted →
      next.included = r.included → Exact env index compare cursor base next := by
    intro next hc hproof hemitted hincluded
    exact hr.start hcarries hfree hmarked (hc ▸ hopen) hproof hemitted hincluded
  apply Except.Ends.ite
  · exact fun _ => finishEntry_exact (hnext _ rfl rfl rfl rfl)
  · exact fun _ => hnext _ rfl rfl rfl rfl

theorem readHeader_exact (hr : Exact env index compare cursor base r) (h : Bytes) :
    KeepsExact env index compare cursor base (r.readHeader env index compare cursor h) := by
  unfold readHeader
  apply Except.Ends.ite
  · intro _
    exact Except.Ends.ite (fun _ => hr.carries) fun _ => hr.quiet rfl rfl rfl rfl
  intro _
  apply Except.Ends.ite
  · exact fun _ => hr.carries
  intro _
  refine ManagedExportProof.attempt_bind_ends (fun magic _ => ?_) fun _ => hr.carries
  refine ManagedExportProof.attempt_bind_ends (fun rawSize _ => ?_) fun _ => hr.carries
  cases extensionOf (typeFlag h) with
  | some extension =>
      exact Except.Ends.ite (fun _ => hr.carries) fun _ => hr.quiet rfl rfl rfl rfl
  | none =>
      exact Except.Ends.ite (fun _ => hr.carries) fun _ => startEntry_exact hr h magic _ rawSize

theorem passPayload_exact (hr : Exact env index compare cursor base r) (part : Bytes) :
    Exact env index compare cursor base (r.passPayload part) := by
  cases hext : r.extendedType with
  | some extension =>
      have hsame : (r.passPayload part).current = r.current := by simp [passPayload, hext]
      exact hr.quiet rfl hsame rfl rfl
  | none =>
      have hpaths : (r.passPayload part).paths = r.paths := by
        cases hc : r.current <;> simp [paths, passPayload, hext, hc]
      refine ⟨hr.carries, hpaths ▸ hr.nodup, hpaths ▸ hr.seen, ?_, hr.emitted, hr.included⟩
      intro c hc
      simp only [passPayload, hext, Option.isSome_none, Bool.false_eq_true, if_false] at hc
      obtain ⟨before, hbefore, rfl⟩ := Option.map_eq_some_iff.mp hc
      obtain ⟨hdescribes, hhash, hcompared⟩ := hr.current before hbefore
      refine ⟨hdescribes, ?_, hcompared⟩
      dsimp only
      rw [hhash]
      by_cases hfile : before.entry.type = .file <;> simp [hfile]

theorem put_exact (hr : Exact env index compare cursor base r) (part : Bytes) :
    KeepsExact env index compare cursor base (r.put env index compare cursor part) := by
  unfold put
  apply Except.Ends.ite
  · intro _
    have hpass := passPayload_exact hr part
    exact Except.Ends.ite (fun _ => finishEntry_exact hpass) fun _ => hpass
  intro _
  apply Except.Ends.ite
  · intro _
    exact Except.Ends.ite (fun _ => hr.carries) fun _ => hr.quiet rfl rfl rfl rfl
  intro _
  have hempty : Exact env index compare cursor base { r with header := [] } :=
    hr.quiet rfl rfl rfl rfl
  apply Except.Ends.ite
  · exact fun _ => readHeader_exact hempty _
  · exact fun _ => hr.quiet rfl rfl rfl rfl

end

end Reading

/-! ## Streams -/

/-- How many entries a run over the proof has to emit. -/
def ManagedExportProof.expected (p : ManagedExportProof) : Nat :=
  (p.summary.map (·.includedEntries)).getD (ManagedExportProof.total p.includedByType)

theorem ManagedExportProof.Grows.expected {p q : ManagedExportProof} (h : p.Grows (Fits index) q)
    (hsummary : q.summary = p.summary) : q.expected = p.expected := by
  unfold ManagedExportProof.expected ManagedExportProof.includedByType
  rw [hsummary, h.counts, h.mode]

section
variable {env : Platform} {index : ManagedSnapshotIndex} {compare : Bool} {cursor : String}
  {base : ManagedExportProof}

theorem TarReader.consume_exact {r : TarReader} (chunk : Bytes)
    (hr : r.toReading.Exact env index compare cursor base) :
    (r.consume env index compare cursor chunk).Ends
      (fun next => next.toReading.Exact env index compare cursor base)
      fun refusal => base.Carries (Fits index) refusal.proof := by
  unfold TarReader.consume
  apply Except.Ends.ite
  · exact fun _ => hr.carries
  intro _
  have hchunk : ((Reading.consumer env index compare cursor).consume r.toReading chunk).Ends
      (Reading.Exact env index compare cursor base) fun refusal =>
        base.Carries (Fits index) refusal.proof :=
    Consumer.consume_ends (fun s piece hs => Reading.put_exact hs piece) hr
  exact hchunk.bind fun next hnext => hnext

theorem TarReader.create_exact (proof : ManagedExportProof) :
    (TarReader.create proof cursor).toReading.Exact env index compare cursor
      (proof.createCursor cursor) where
  carries := ManagedExportProof.Carries.refl _
  nodup := List.nodup_nil
  seen := fun _ h => by cases h
  current := fun _ h => by cases h
  emitted := fun _ h => by cases h
  included := rfl

theorem TarReader.complete_ends (p : ManagedExportProof) :
    (TarReader.complete env compare p).Ends (fun q => p.Carries (Fits index) q)
      fun refusal => p.Carries (Fits index) refusal.proof := by
  unfold TarReader.complete
  apply Except.Ends.ite
  · exact fun _ => ManagedExportProof.Carries.refl p
  · exact fun _ => ManagedExportProof.validateCompleteness_ends.mono (fun _ h => h.1) fun _ h => h

theorem TarReader.finish_exact {r : TarReader}
    (hr : r.toReading.Exact env index compare cursor base) :
    (r.finish env compare).Ends
      (fun next => next.toReading.Exact env index compare cursor base ∧
        next.emitted.length = base.expected)
      fun refusal => base.Carries (Fits index) refusal.proof := by
  unfold TarReader.finish
  apply Except.Ends.ite
  · exact fun _ => hr.carries
  intro _
  have hflush : (r.proof.flush env).Ends (fun q => r.proof.Carries (Fits index) q)
      fun refusal => base.Carries (Fits index) refusal.proof :=
    ManagedExportProof.flush_ends.mono (fun _ h => h.1) fun _ h => h.symm ▸ hr.carries
  refine hflush.bind fun q hq => ?_
  have hbase := hr.carries.trans hq
  apply Except.Ends.ite
  · exact fun _ => hbase
  intro hcount
  have hincluded : r.included = q.expected := by simpa [ManagedExportProof.expected] using hcount
  refine ((TarReader.complete_ends q).mono (fun _ h => h) fun _ h =>
    hbase.trans h).bind fun q' hq' => ?_
  refine Except.ends_pure.mpr ⟨hr.later (hq.trans hq') rfl rfl rfl rfl, ?_⟩
  show r.emitted.length = base.expected
  rw [← hr.included, hincluded, hbase.toGrows.expected hbase.summary]

end

/-! ## Runs -/

/-- What a run that succeeds has emitted: `p` is the proof before it, `q` the one after. -/
structure Outcome (env : Platform) (index : ManagedSnapshotIndex) (compare : Bool)
    (p q : ManagedExportProof) (emitted : List Emitted) : Prop where
  nodup : (emitted.map (·.entry.path)).Nodup
  closed : ∀ x ∈ emitted, x.Closed env index compare q
  count : emitted.length = p.expected
  prepared : compare = false → p.summary = none ∧ q.pending = [] ∧ q.LinksChecked ∧
    ∃ s, q.summary = some s ∧ s.includedEntries = ManagedExportProof.total q.includedByType

section
variable {env : Platform} {index : ManagedSnapshotIndex} {compare : Bool} {cursor : String}
  {p q : ManagedExportProof}

theorem Outcome.later {r : ManagedExportProof} {emitted : List Emitted}
    (h : Outcome env index compare p q emitted) (hgrows : q.Grows (Fits index) r)
    (hpending : r.pending = q.pending) (hentries : r.db.entries = q.db.entries)
    (hsummary : r.summary = q.summary) :
    Outcome env index compare p r emitted where
  nodup := h.nodup
  closed := fun x hx => (h.closed x hx).mono hgrows
  count := h.count
  prepared := by
    intro hprepare
    obtain ⟨hnone, hempty, hlinks, s, hs, htotal⟩ := h.prepared hprepare
    have hincluded : r.includedByType = q.includedByType := by
      unfold ManagedExportProof.includedByType
      rw [hgrows.counts, hgrows.mode]
    exact ⟨hnone, hpending.trans hempty, hlinks.congr hgrows.mode hpending hentries,
      s, hsummary.trans hs,
      by rw [hincluded, htotal]⟩

theorem exportStream_ends (delivery : Delivery) (hsummary : compare = false → p.summary = none) :
    (exportStream env index p compare cursor delivery).Ends
      (fun result => (p.createCursor cursor).Grows (Fits index) result.2.2 ∧
        (compare = true → result.2.2.summary = p.summary) ∧
        Outcome env index compare p result.2.2 result.2.1)
      fun refusal => (p.createCursor cursor).Carries (Fits index) refusal.proof := by
  have hread : (delivery.chunks.foldlM (TarReader.consume env index compare cursor)
      (TarReader.create p cursor)).Ends
      (fun r => r.toReading.Exact env index compare cursor (p.createCursor cursor))
      fun refusal => (p.createCursor cursor).Carries (Fits index) refusal.proof :=
    Except.ends_foldlM (fun r chunk hr => TarReader.consume_exact chunk hr)
      (TarReader.create_exact p)
  unfold exportStream
  refine hread.bind fun reader hreader => ?_
  apply Except.Ends.ite
  · exact fun _ => hreader.carries
  intro _
  refine (TarReader.finish_exact hreader).bind fun r hr => ?_
  obtain ⟨hexact, hcount⟩ := hr
  have hcarries := hexact.carries
  have hpaths : (r.emitted.map (·.entry.path)).Nodup := (List.nodup_append.mp hexact.nodup).2.1
  apply Except.Ends.ite
  · exact fun _ => hcarries
  intro _
  cases compare with
  | true =>
      rw [if_pos rfl]
      cases hs : r.proof.summary with
      | none => exact hcarries
      | some s =>
          apply Except.Ends.ite
          · exact fun _ => hcarries
          · intro _
            exact ⟨hcarries.toGrows, fun _ => hcarries.summary,
              ⟨hpaths, hexact.emitted, hcount, fun h => by cases h⟩⟩
  | false =>
      have hfinish : ∀ digest bytes, (r.proof.finish env digest bytes).Ends _ _ :=
        fun digest bytes => ManagedExportProof.finish_ends (Fits index) digest bytes
      refine ((hfinish _ _).mono (fun _ h => h) fun _ h =>
        hcarries.trans h).bind fun result hresult => ?_
      obtain ⟨hgrows, hpending, hs, htotal, hlinks⟩ := hresult
      exact ⟨hcarries.toGrows.trans hgrows, (fun h => by cases h),
        ⟨hpaths, fun x hx => (hexact.emitted x hx).mono hgrows, hcount,
          fun _ => ⟨hsummary rfl, hpending, hlinks, _, hs, htotal⟩⟩⟩

theorem beginExport_ends : (beginExport index p compare).Ends
    (fun q => p.Grows (Fits index) q ∧ q.summary = p.summary ∧ (compare = false → p.summary = none))
    fun refusal => refusal.proof = p := by
  unfold beginExport
  refine ManagedExportProof.attempt_bind_ends (fun _ _ => ?_) fun _ => rfl
  cases compare with
  | true =>
      rw [if_pos rfl]
      apply Except.Ends.ite
      · exact fun _ => rfl
      · exact fun _ => ⟨ManagedExportProof.Grows.refl p, rfl, fun h => by cases h⟩
  | false =>
      refine (ManagedExportProof.reset_ends (Fits index)).mono (fun q hq => ?_) fun _ h => h
      exact ⟨hq.1, hq.2.2.trans hq.2.1.symm, fun _ => hq.2.1⟩

/-- What a run leaves behind, however it ends. -/
theorem runManagedExport_spec (delivery : Delivery) :
    p.Grows (Fits index) (runManagedExport env index p compare cursor delivery).2 ∧
    (∀ s, p.summary = some s →
      (runManagedExport env index p compare cursor delivery).2.summary = some s) ∧
    ∀ exported, (runManagedExport env index p compare cursor delivery).1 = .ok exported →
      Outcome env index compare p (runManagedExport env index p compare cursor delivery).2
        exported.emitted := by
  have hbegin : (beginExport index p compare).Ends _ _ := beginExport_ends
  unfold runManagedExport
  cases hstart : beginExport index p compare with
  | error refusal =>
      dsimp only
      rw [hbegin.of_error hstart]
      exact ⟨ManagedExportProof.Grows.refl p, fun _ h => h, fun _ h => by cases h⟩
  | ok q =>
      obtain ⟨hgrows, hsummary, hnone⟩ := hbegin.of_ok hstart
      have hstream : (exportStream env index q compare cursor delivery).Ends _ _ :=
        exportStream_ends delivery fun h => hsummary.trans (hnone h)
      have hcreated := hgrows.trans (q.grows_createCursor cursor)
      dsimp only
      cases hrun : exportStream env index q compare cursor delivery with
      | error refusal =>
          have hcarries := hstream.of_error hrun
          refine ⟨(hcreated.trans hcarries.toGrows).trans
            (refusal.proof.grows_releaseCursor cursor),
            fun s hs => ?_, fun _ h => by cases h⟩
          exact hcarries.summary.trans (hsummary.trans hs)
      | ok result =>
          obtain ⟨summary, emitted, final⟩ := result
          obtain ⟨hfinal, hkept, houtcome⟩ := hstream.of_ok hrun
          have hrelease : final.Grows (Fits index) (final.releaseCursor cursor) :=
            final.grows_releaseCursor cursor
          refine ⟨(hcreated.trans hfinal).trans hrelease, fun s hs => ?_, fun exported h => ?_⟩
          · cases compare with
            | true => exact (hkept rfl).trans (hsummary.trans hs)
            | false =>
                rw [hnone rfl] at hs
                cases hs
          · cases h
            have hlater := houtcome.later hrelease rfl rfl rfl
            exact ⟨hlater.nodup, hlater.closed, hlater.count.trans (hgrows.expected hsummary),
              fun h => ⟨hnone h, (hlater.prepared h).2⟩⟩

end

/-! ## The count -/

section
variable {index : ManagedSnapshotIndex} {mode : ManagedExportMode}

/-- The nodes that a mode includes. -/
def ManagedSnapshotIndex.includedNodes (index : ManagedSnapshotIndex) (mode : ManagedExportMode) :
    List ManagedSnapshotNode :=
  index.nodes.filter fun node => exportIncludes mode node.type

theorem total_filter_ne_zero (counts : ManagedExportCounts) (f : NodeType × Nat → Bool) :
    ManagedExportProof.total ((counts.filter (·.2 != 0)).filter f) =
      ManagedExportProof.total (counts.filter f) := by
  rw [List.filter_filter]
  induction counts with
  | nil => rfl
  | cons count counts ih =>
      unfold ManagedExportProof.total at ih ⊢
      by_cases hzero : count.2 = 0
      · by_cases hf : f count <;> simp [hzero, hf, ih]
      · by_cases hf : f count <;> simp [hzero, hf, ih]

/-- A count over two kinds of nodes that exclude each other. -/
theorem countP_type_or (nodes : List ManagedSnapshotNode) (type : NodeType) (f : NodeType → Bool)
    (hf : f type = false) :
    nodes.countP (fun node => node.type == type || f node.type) =
      nodes.countP (·.type == type) + nodes.countP fun node => f node.type := by
  induction nodes with
  | nil => rfl
  | cons node nodes ih =>
      rw [List.countP_cons, List.countP_cons, List.countP_cons, ih]
      by_cases htype : node.type = type
      · simp [htype, hf]
        omega
      · cases hnode : f node.type <;> simp [htype, Nat.add_assoc]

/-- The counts of the included types add up to the number of included nodes. -/
theorem total_typeCounts :
    ManagedExportProof.total (index.typeCounts.filter fun (type, _) => exportIncludes mode type) =
      (index.includedNodes mode).length := by
  unfold ManagedSnapshotIndex.typeCounts ManagedSnapshotIndex.includedNodes
  rw [total_filter_ne_zero, ← List.countP_eq_length_filter]
  cases mode with
  | full =>
      have hincluded : (fun node : ManagedSnapshotNode => exportIncludes .full node.type) =
          fun node => node.type == .dir || (node.type == .file || node.type == .symlink) := by
        funext node
        cases node.type <;> rfl
      rw [hincluded,
        countP_type_or index.nodes .dir (fun type => type == .file || type == .symlink) rfl,
        countP_type_or index.nodes .file (· == .symlink) rfl]
      simp [ManagedExportProof.total, exportIncludes]
  | regularFiles =>
      have hincluded : (fun node : ManagedSnapshotNode => exportIncludes .regularFiles node.type) =
          fun node => node.type == .dir || node.type == .file := by
        funext node
        cases node.type <;> rfl
      rw [hincluded, countP_type_or index.nodes .dir (· == .file) rfl]
      simp [ManagedExportProof.total, exportIncludes]

end

/-! ## Exactness -/

/-- What an export has to get right of a node: its path, its type, and a file's size. -/
def ManagedSnapshotNode.shape (node : ManagedSnapshotNode) : String × NodeType × Option Nat :=
  (node.path, node.type, if node.type = .file then some node.size else none)

def ManagedExportEntry.shape (entry : ManagedExportEntry) : String × NodeType × Option Nat :=
  (entry.path, entry.type, if entry.type = .file then some entry.size else none)

section
variable {env : Platform} {index : ManagedSnapshotIndex} {compare : Bool}
  {p q : ManagedExportProof} {mode : ManagedExportMode} {emitted : List Emitted}

theorem Describes.shape_mem {entry : ManagedExportEntry} {header : PackedHeader}
    (h : Describes index mode entry header) :
    entry.shape ∈ (index.includedNodes mode).map (·.shape) := by
  obtain ⟨node, hmem, hpath, htype, hsize⟩ := h.node
  have hincluded : node ∈ index.includedNodes mode := by
    apply List.mem_filter.mpr
    rw [htype]
    exact ⟨hmem, h.selected⟩
  have hshape : node.shape = entry.shape := by
    unfold ManagedSnapshotNode.shape ManagedExportEntry.shape
    rw [hpath, htype]
    by_cases hfile : entry.type = .file
    · rw [if_pos hfile, if_pos hfile, hsize hfile]
    · rw [if_neg hfile, if_neg hfile]
  exact hshape ▸ List.mem_map_of_mem hincluded

/-- No path twice, each of a node, and as many as there are nodes: then every node is there. -/
theorem Outcome.shapes_perm (h : Outcome env index compare p q emitted)
    (hmode : q.mode = mode) (hcount : p.expected = (index.includedNodes mode).length) :
    (emitted.map (·.entry.shape)).Perm ((index.includedNodes mode).map (·.shape)) := by
  have hnodup : (emitted.map (·.entry.shape)).Nodup := by
    apply List.Nodup.of_map Prod.fst
    rw [List.map_map]
    exact h.nodup
  have hsubset : emitted.map (·.entry.shape) ⊆ (index.includedNodes mode).map (·.shape) := by
    intro shape hshape
    obtain ⟨x, hx, rfl⟩ := List.mem_map.mp hshape
    exact (hmode ▸ (h.closed x hx).describes).shape_mem
  have hlength : ((index.includedNodes mode).map (·.shape)).length ≤
      (emitted.map (·.entry.shape)).length := by
    rw [List.length_map, List.length_map, h.count, hcount]
  exact (List.subperm_of_subset hnodup hsubset).perm_of_length_le hlength

/-- Entries of one index node that agree in metadata and digest are equal. -/
theorem Describes.entry_eq {entry entry' : ManagedExportEntry} {header header' : PackedHeader}
    (h : Describes index mode entry header) (h' : Describes index mode entry' header')
    (hpath : entry.path = entry'.path) (hmetadata : entry.metadata = entry'.metadata)
    (hsha256 : entry.sha256 = entry'.sha256) : entry = entry' := by
  obtain ⟨node, hmem, hnode, htype, _⟩ := h.node
  obtain ⟨node', hmem', hnode', htype', _⟩ := h'.node
  have hsame : node = node' := by
    apply List.inj_on_of_nodup_map index.nodup hmem hmem'
    rw [hnode, hnode', hpath]
  subst hsame
  have hsize : entry.size = entry'.size := by rw [h.size, h'.size, hmetadata]
  have hlink : entry.linkTarget = entry'.linkTarget := by rw [h.link, h'.link, hmetadata]
  cases entry
  cases entry'
  simp_all

end

/-! ## Runs over one proof -/

/-- A run of `runManagedExport`. It takes the proof object as the runs before it left it, or
a new one over the index's database. -/
structure ExportRun where
  reopened : Bool
  compare : Bool
  cursor : String
  delivery : Delivery

namespace ExportRun

def start (index : ManagedSnapshotIndex) (p : ManagedExportProof) (run : ExportRun) :
    ManagedExportProof :=
  if run.reopened then index.exportProof p.db p.binding p.mode else p

def result (env : Platform) (index : ManagedSnapshotIndex) (p : ManagedExportProof)
    (run : ExportRun) :
    Except Failure Exported × ManagedExportProof :=
  runManagedExport env index (run.start index p) run.compare run.cursor run.delivery

/-- The proof after some runs, whether they succeeded or not. -/
def after (env : Platform) (index : ManagedSnapshotIndex) (p : ManagedExportProof)
    (runs : List ExportRun) :
    ManagedExportProof :=
  runs.foldl (fun p run => (run.result env index p).2) p

end ExportRun

section
variable {env : Platform} {index : ManagedSnapshotIndex} {mode : ManagedExportMode}
  {p : ManagedExportProof} {q : ManagedExportProof}

theorem ExportRun.result_grows (run : ExportRun) :
    (run.start index p).Grows (Fits index) (run.result env index p).2 :=
  (runManagedExport_spec run.delivery).1

theorem ExportRun.result_summary (run : ExportRun) {s : ManagedExportSummary}
    (h : (run.start index p).summary = some s) : (run.result env index p).2.summary = some s :=
  (runManagedExport_spec run.delivery).2.1 s h

theorem ExportRun.result_outcome (run : ExportRun) {exported : Exported}
    (h : (run.result env index p).1 = .ok exported) :
    Outcome env index run.compare (run.start index p) (run.result env index p).2 exported.emitted :=
  (runManagedExport_spec run.delivery).2.2 exported h

/-- The proof is one of the index, in the mode. -/
structure Of (index : ManagedSnapshotIndex) (mode : ManagedExportMode) (p : ManagedExportProof) :
    Prop where
  counts : p.counts = index.typeCounts
  mode : p.mode = mode

theorem Of.start (h : Of index mode p) (run : ExportRun) : Of index mode (run.start index p) := by
  unfold ExportRun.start
  split
  · exact ⟨rfl, h.mode⟩
  · exact h

theorem Of.result (h : Of index mode p) (run : ExportRun) :
    Of index mode (run.result env index p).2 := by
  have hgrows : (run.start index p).Grows (Fits index) (run.result env index p).2 :=
    run.result_grows
  have hstart := h.start run
  exact ⟨hgrows.counts.trans hstart.counts, hgrows.mode.trans hstart.mode⟩

theorem Of.after (h : Of index mode p) (runs : List ExportRun) :
    Of index mode (ExportRun.after env index p runs) := by
  induction runs generalizing p with
  | nil => exact h
  | cons run runs ih => exact ih (h.result run)

theorem Of.total (h : Of index mode p) :
    ManagedExportProof.total p.includedByType = (index.includedNodes mode).length := by
  unfold ManagedExportProof.includedByType
  rw [h.counts, h.mode]
  exact total_typeCounts

/-- The proof holds the summary and the entries of a preparation. -/
structure Prepared (index : ManagedSnapshotIndex) (mode : ManagedExportMode)
    (summary : ManagedExportSummary) (emitted : List Emitted) (p : ManagedExportProof) : Prop
    extends Of index mode p where
  summary : p.summary = some summary
  stored : ∀ x ∈ emitted, p.stored x.entry.path = some x.entry
  lookup : ∀ x ∈ emitted, p.lookup x.entry.path = some x.entry

variable {s : ManagedExportSummary} {emitted : List Emitted}

theorem Prepared.start (h : Prepared index mode s emitted p) (run : ExportRun) :
    Prepared index mode s emitted (run.start index p) := by
  unfold ExportRun.start
  split
  · exact ⟨⟨rfl, h.mode⟩, h.summary, h.stored, h.stored⟩
  · exact h

theorem Prepared.result (h : Prepared index mode s emitted p) (run : ExportRun) :
    Prepared index mode s emitted (run.result env index p).2 := by
  have hstart := h.start run
  have hgrows : (run.start index p).Grows (Fits index) (run.result env index p).2 :=
    run.result_grows
  exact ⟨h.toOf.result run, run.result_summary hstart.summary,
    fun x hx => hgrows.stored (hstart.stored x hx), fun x hx => hgrows.lookup (hstart.lookup x hx)⟩

theorem Prepared.after (h : Prepared index mode s emitted p) (runs : List ExportRun) :
    Prepared index mode s emitted (ExportRun.after env index p runs) := by
  induction runs generalizing p with
  | nil => exact h
  | cons run runs ih => exact ih (h.result run)

/-- A preparation that succeeds leaves its entries in the database. -/
theorem Outcome.prepare (h : Outcome env index false p q emitted) (hq : Of index mode q) :
    ∃ s, Prepared index mode s emitted q ∧
      s.includedEntries = (index.includedNodes mode).length := by
  obtain ⟨_, hpending, _, s, hs, htotal⟩ := h.prepared rfl
  have hlookup : ∀ x ∈ emitted, q.lookup x.entry.path = some x.entry :=
    fun x hx => (h.closed x hx).recorded rfl
  have hstored : ∀ x ∈ emitted, q.stored x.entry.path = some x.entry := by
    intro x hx
    have hx := hlookup x hx
    unfold ManagedExportProof.lookup at hx
    rw [hpending] at hx
    exact hx
  exact ⟨s, ⟨hq, hs, hstored, hlookup⟩, htotal.trans hq.total⟩

/-- A transfer emits the entries that were prepared. -/
theorem Prepared.entries_perm {compared : List Emitted} (h : Prepared index mode s emitted p)
    (hgrows : p.Grows (Fits index) q) (houtcome : Outcome env index true p q compared)
    (hs : s.includedEntries = (index.includedNodes mode).length)
    (hshapes : (emitted.map (·.entry.shape)).Perm ((index.includedNodes mode).map (·.shape)))
    (hdescribed : ∀ x ∈ emitted, Describes index mode x.entry x.header) :
    (compared.map (·.entry)).Perm (emitted.map (·.entry)) := by
  have hexpected : p.expected = (index.includedNodes mode).length := by
    unfold ManagedExportProof.expected
    rw [h.summary]
    exact hs
  have hmode : q.mode = mode := hgrows.mode.trans h.mode
  have hcompared := houtcome.shapes_perm hmode hexpected
  have hnodup : (compared.map (·.entry)).Nodup := by
    apply List.Nodup.of_map (·.path)
    rw [List.map_map]
    exact houtcome.nodup
  have hsubset : compared.map (·.entry) ⊆ emitted.map (·.entry) := by
    intro entry hentry
    obtain ⟨y, hy, rfl⟩ := List.mem_map.mp hentry
    -- the entry prepared under the same path is the one the transfer compared with
    obtain ⟨x, hx, hshape⟩ := List.mem_map.mp
      ((hcompared.trans hshapes.symm).subset (List.mem_map_of_mem hy))
    have hpath : x.entry.path = y.entry.path := congrArg Prod.fst hshape
    obtain ⟨held, hheld, hmetadata, hsha256⟩ := (houtcome.closed y hy).compared rfl
    have hknown : q.lookup x.entry.path = some x.entry := hgrows.lookup (h.lookup x hx)
    have hlookup : q.lookup y.entry.path = some held := (Option.filter_eq_some_iff.mp hheld).1
    obtain rfl : x.entry = held := by
      rw [← hpath, hknown] at hlookup
      exact Option.some.inj hlookup
    have hy' : Describes index mode y.entry y.header := hmode ▸ (houtcome.closed y hy).describes
    rw [← (hdescribed x hx).entry_eq hy' hpath hmetadata hsha256]
    exact List.mem_map_of_mem hx
  have hlength : (emitted.map (·.entry)).length ≤ (compared.map (·.entry)).length := by
    have hsame := (hcompared.trans hshapes.symm).length_eq
    simp only [List.length_map] at hsame ⊢
    exact Nat.le_of_eq hsame.symm
  exact (List.subperm_of_subset hnodup hsubset).perm_of_length_le hlength

/-- An entry's digest is the digest of the bytes that were packed. -/
theorem Outcome.digests {compare : Bool} (h : Outcome env index compare p q emitted) :
    ∀ x ∈ emitted, x.entry.type = .file → x.entry.sha256 = some (env.sha256 x.payload) := by
  intro x hx hfile
  rw [(h.closed x hx).sha256, if_pos hfile]

end

/-- Whatever ran over the proof before, a preparation that succeeds has emitted the nodes
that the mode includes, each once and with the type and the size the index has for it; and
whatever runs after it, a transfer that succeeds emits the same entries. -/
theorem managedExport_exact (env : Platform) (index : ManagedSnapshotIndex) (db : ProofDb)
    (binding : ManagedExportBinding) (mode : ManagedExportMode) (earlier : List ExportRun)
    (prepare : ExportRun) (hprepare : prepare.compare = false) (exported : Exported)
    (hok : (prepare.result env index
      (ExportRun.after env index (index.exportProof db binding mode) earlier)).1 = .ok exported) :
    (exported.emitted.map (·.entry.shape)).Perm ((index.includedNodes mode).map (·.shape)) ∧
    (∀ x ∈ exported.emitted, x.entry.type = .file → x.entry.sha256 = some (env.sha256 x.payload)) ∧
    ∀ (between : List ExportRun) (transfer : ExportRun) (compared : Exported),
      transfer.compare = true →
      (transfer.result env index (ExportRun.after env index (prepare.result env index
        (ExportRun.after env index (index.exportProof db binding mode) earlier)).2 between)).1 =
          .ok compared →
      (compared.emitted.map (·.entry)).Perm (exported.emitted.map (·.entry)) ∧
      ∀ x ∈ compared.emitted, x.entry.type = .file →
        x.entry.sha256 = some (env.sha256 x.payload) := by
  generalize hbefore : ExportRun.after env index (index.exportProof db binding mode) earlier =
    before at hok ⊢
  have hcreated : Of index mode (index.exportProof db binding mode) := ⟨rfl, rfl⟩
  have hof : Of index mode before := hbefore ▸ hcreated.after earlier
  have houtcome := prepare.result_outcome hok
  rw [hprepare] at houtcome
  have hafter : Of index mode (prepare.result env index before).2 := hof.result prepare
  have hexpected : (prepare.start index before).expected = (index.includedNodes mode).length := by
    unfold ManagedExportProof.expected
    rw [(houtcome.prepared rfl).1]
    exact (hof.start prepare).total
  have hshapes := houtcome.shapes_perm hafter.mode hexpected
  obtain ⟨s, hprepared, hs⟩ := houtcome.prepare hafter
  refine ⟨hshapes, houtcome.digests, fun between transfer compared htransfer hcompared => ?_⟩
  have hheld : Prepared index mode s exported.emitted (transfer.start index
      (ExportRun.after env index (prepare.result env index before).2 between)) :=
    (hprepared.after between).start transfer
  have houtcome' := transfer.result_outcome hcompared
  rw [htransfer] at houtcome'
  refine ⟨hheld.entries_perm transfer.result_grows houtcome' hs hshapes fun x hx => ?_,
    houtcome'.digests⟩
  exact hafter.mode ▸ (houtcome.closed x hx).describes

def samplePrepare : ExportRun := ⟨false, false, "c1", ⟨[sampleArchive], true⟩⟩

def sampleTransfer : ExportRun :=
  ⟨true, true, "c2", ⟨[sampleArchive.take 700, sampleArchive.drop 700], true⟩⟩

/-- The summary that `finish` writes. -/
def ManagedExportProof.summaryOf (env : Platform) (p : ManagedExportProof) (archiveSha256 : String)
    (archiveBytes : Nat) : ManagedExportSummary :=
  { binding := p.binding
    mode := p.mode
    includedEntries := total p.includedByType
    excludedEntries := total p.excludedByType
    includedByType := p.includedByType
    excludedByType := p.excludedByType
    manifestSha256 := env.sha256 p.manifest
    archiveSha256
    archiveBytes }

/-- A complete proof with nothing in memory gets its summary when there is room. -/
theorem ManagedExportProof.finish_complete {env : Platform} {p : ManagedExportProof}
    {archiveSha256 : String} {archiveBytes : Nat} (hvalid : p.validateCompleteness env = .ok p)
    (hflush : p.flush env = .ok p) (hproofs : p.db.proofs = [])
    (hroom : ∀ db, env.full db = false) :
    p.finish env archiveSha256 archiveBytes = .ok (p.summaryOf env archiveSha256 archiveBytes,
      { p with db := { p.db with proofs := [p.summaryOf env archiveSha256 archiveBytes] } }) := by
  unfold finish
  rw [hvalid]
  simp only [bind, Except.bind]
  rw [hflush]
  simp only [hroom, hproofs]
  rfl

variable {summary : ManagedExportSummary}

theorem runManagedExport_ok {env : Platform} {index : ManagedSnapshotIndex}
    {proof begun ended : ManagedExportProof} {compare : Bool} {cursor : String}
    {delivery : Delivery} {emitted : List Emitted}
    (hbegin : beginExport index proof compare = .ok begun)
    (hstream : exportStream env index begun compare cursor delivery =
      .ok (summary, emitted, ended)) :
    runManagedExport env index proof compare cursor delivery =
      (.ok ⟨summary, emitted⟩, ended.releaseCursor cursor) := by
  unfold runManagedExport
  rw [hbegin]
  dsimp only
  rw [hstream]

/-- A preparation whose stream is read to its end. -/
theorem exportStream_prepare {env : Platform} {index : ManagedSnapshotIndex}
    {proof ended : ManagedExportProof} {cursor : String} (delivery : Delivery)
    {read finished : TarReader} {archive : Bytes}
    (hread : delivery.chunks.foldlM (TarReader.consume env index false cursor)
      (TarReader.create proof cursor) =
      .ok read)
    (hcomplete : delivery.complete = true) (hfinish : read.finish env false = .ok finished)
    (hpack : env.pack (finished.emitted.map fun e => (e.header, e.payload)) = archive)
    (hsafe : ¬archive.length > Js.maxSafeInteger)
    (hsummary : finished.proof.finish env (env.sha256 archive) archive.length =
      .ok (summary, ended)) :
    exportStream env index proof false cursor delivery =
      .ok (summary, finished.emitted, ended) := by
  unfold exportStream
  rw [hread]
  simp only [bind, Except.bind]
  rw [hcomplete, Bool.not_true, if_neg Bool.false_ne_true, hfinish]
  dsimp only
  rw [hpack, if_neg hsafe, hsummary]
  rfl

/-- A transfer whose stream is read to its end, and whose archive is the prepared one. -/
theorem exportStream_transfer {env : Platform} {index : ManagedSnapshotIndex}
    {proof : ManagedExportProof} {cursor : String} (delivery : Delivery) {read finished : TarReader}
    {archive : Bytes}
    (hread : delivery.chunks.foldlM (TarReader.consume env index true cursor)
      (TarReader.create proof cursor) =
      .ok read)
    (hcomplete : delivery.complete = true) (hfinish : read.finish env true = .ok finished)
    (hpack : env.pack (finished.emitted.map fun e => (e.header, e.payload)) = archive)
    (hsafe : ¬archive.length > Js.maxSafeInteger) (hsummary : finished.proof.summary = some summary)
    (hsha256 : summary.archiveSha256 = env.sha256 archive)
    (hbytes : summary.archiveBytes = archive.length) :
    exportStream env index proof true cursor delivery =
      .ok (summary, finished.emitted, finished.proof) := by
  unfold exportStream
  rw [hread]
  simp only [bind, Except.bind]
  rw [hcomplete, Bool.not_true, if_neg Bool.false_ne_true, hfinish]
  dsimp only
  rw [hpack, if_neg hsafe, if_pos trivial, hsummary]
  dsimp only
  rw [hsha256, hbytes, bne_self_eq_false, bne_self_eq_false, Bool.or_false,
    if_neg Bool.false_ne_true]
  rfl

/-- The summary of the preparation. -/
def sampleSummary : ManagedExportSummary :=
  (TarReader.sampleFlushed "c1").summaryOf samplePlatform
    (samplePlatform.sha256 sampleArchive) sampleArchive.length

theorem included_sampleSummary : sampleSummary.includedEntries = 1 := by
  have hincluded : ManagedExportProof.total (TarReader.sampleFlushed "c1").includedByType = 1 := by
    decide +kernel
  exact hincluded

/-- The proof that a preparation leaves. -/
def samplePrepared (summary : ManagedExportSummary) : ManagedExportProof :=
  { sampleProof with
    db := { sampleProof.db with entries := [TarReader.sampleSettled], proofs := [summary] } }

theorem length_sampleArchive_safe : ¬sampleArchive.length > Js.maxSafeInteger := by
  rw [TarReader.length_sampleArchive TarReader.sampleTexts]
  exact Nat.not_lt.mpr TarReader.sampleTexts.safe

theorem prepare_sample :
    samplePrepare.result samplePlatform sampleIndex sampleProof =
      (.ok ⟨sampleSummary, (TarReader.sampleRead sampleProof).emitted⟩,
        samplePrepared sampleSummary) := by
  obtain ⟨q, happend, hflush⟩ := TarReader.append_sample "c1"
  have hseen := TarReader.seen_fresh samplePlatform "c1" "/a" (p := sampleProof) (by rfl) (by rfl)
  have hsettle : Reading.settle samplePlatform false { sampleProof with
      cursors := [("c1", ["/a"])] }
      TarReader.sampleSettled = .ok q := by
    unfold Reading.settle
    rw [if_neg Bool.false_ne_true]
    exact happend
  have hfold := TarReader.foldlM_sample TarReader.sampleTexts false "c1" sampleProof
    (List.flatten_singleton (l := sampleArchive)) hseen rfl
    (fun h => absurd h Bool.false_ne_true) hsettle
  have hvalid : (TarReader.sampleFlushed "c1").validateCompleteness samplePlatform =
      .ok (TarReader.sampleFlushed "c1") := by
    decide +kernel
  have hagain : (TarReader.sampleFlushed "c1").flush samplePlatform =
      .ok (TarReader.sampleFlushed "c1") := by
    rfl
  have hbegin : beginExport sampleIndex sampleProof false = .ok sampleProof := by rfl
  have hfinish := TarReader.finish_sample false hflush (by decide +kernel) hvalid
  have hsummary :
      (TarReader.sampleFlushed "c1").finish samplePlatform (samplePlatform.sha256 sampleArchive)
      sampleArchive.length = .ok (sampleSummary, { TarReader.sampleFlushed "c1" with
        db := { (TarReader.sampleFlushed "c1").db with proofs := [sampleSummary] } }) :=
    ManagedExportProof.finish_complete hvalid hagain (by rfl) fun _ => rfl
  have hstream :=
    exportStream_prepare
      ⟨[sampleArchive], true⟩ hfold rfl hfinish rfl length_sampleArchive_safe hsummary
  exact runManagedExport_ok hbegin hstream

theorem transfer_sample (summary : ManagedExportSummary) (hmode : summary.mode = .full)
    (hbinding : summary.binding = ⟨"b", "r", "s"⟩) (hincluded : summary.includedEntries = 1)
    (hsha256 : summary.archiveSha256 = samplePlatform.sha256 sampleArchive)
    (hbytes : summary.archiveBytes = sampleArchive.length) :
    (sampleTransfer.result samplePlatform sampleIndex (samplePrepared summary)).1 =
      .ok ⟨summary, (TarReader.sampleRead sampleProof).emitted⟩ := by
  have hsummary : ∀ p : ManagedExportProof, p.db.proofs = [summary] → p.mode = .full →
      p.binding = ⟨"b", "r", "s"⟩ →
      p.summary = some summary := by
    intro p hproofs hpmode hpbinding
    simp [ManagedExportProof.summary, hproofs, hpmode, hpbinding, hmode, hbinding]
  have hget : { samplePrepared summary with cursors := [("c2", ["/a"])] }.get "/a" =
      some TarReader.sampleSettled := by
    rfl
  have hbegin : beginExport sampleIndex (samplePrepared summary) true =
      .ok (samplePrepared summary) := by
    have hentries : (samplePrepared summary).attempt
        (sampleIndex.assertExportEntries (samplePrepared summary).mode) =
        .ok () := rfl
    have hsome : ¬(samplePrepared summary).summary.isNone = true := by
      rw [hsummary _ rfl rfl rfl]
      exact Bool.false_ne_true
    unfold beginExport
    rw [hentries]
    simp only [bind, Except.bind]
    rw [if_pos trivial, if_neg hsome]
    rfl
  have hseen :=
    TarReader.seen_fresh samplePlatform "c2" "/a" (p := samplePrepared summary) (by rfl) (by rfl)
  have hsettle : Reading.settle samplePlatform true { samplePrepared summary with
      cursors := [("c2", ["/a"])] }
      TarReader.sampleSettled = .ok { samplePrepared summary with
        cursors := [("c2", ["/a"])] } := by
    have hpath : TarReader.sampleSettled.path = "/a" := rfl
    unfold Reading.settle
    rw [if_pos rfl, hpath, hget, Option.bind_some, bne_self_eq_false, if_neg Bool.false_ne_true]
  have hchunks : [sampleArchive.take 700, sampleArchive.drop 700].flatten = sampleArchive := by
    rw [List.flatten_cons, List.flatten_singleton, List.take_append_drop]
  have hfold :=
    TarReader.foldlM_sample TarReader.sampleTexts true "c2"
      (samplePrepared summary) hchunks hseen rfl
    (fun _ => by rw [hget]; rfl) hsettle
  have hflush : { samplePrepared summary with cursors := [("c2", ["/a"])] }.flush samplePlatform =
      .ok { samplePrepared summary with
        db := { (samplePrepared summary).db with seen := [("c2", "/a")] },
        cursors := [("c2", [])] } := by
    rfl
  have hfinish :=
    TarReader.finish_sample true hflush (by rw [hsummary _ rfl rfl rfl]; exact hincluded) rfl
  have hstream :=
    exportStream_transfer sampleTransfer.delivery hfold rfl hfinish rfl length_sampleArchive_safe
    (hsummary _ rfl rfl rfl) hsha256 hbytes
  exact congrArg Prod.fst (runManagedExport_ok hbegin hstream)

theorem managedExport_exact_of_sample :
    ∃ exported compared,
      (samplePrepare.result samplePlatform sampleIndex sampleProof).1 = .ok exported ∧
      (sampleTransfer.result samplePlatform sampleIndex
        (samplePrepare.result samplePlatform sampleIndex sampleProof).2).1 = .ok compared ∧
      (exported.emitted.map (·.entry.shape)).Perm [("/a", .file, some 2)] ∧
      (compared.emitted.map (·.entry)).Perm (exported.emitted.map (·.entry)) := by
  have hexact :=
    managedExport_exact samplePlatform sampleIndex ⟨[], [], []⟩ ⟨"b", "r", "s"⟩ .full []
    samplePrepare rfl
  have hnone : ∀ p, ExportRun.after samplePlatform sampleIndex p [] = p := fun _ => rfl
  have hproof : sampleIndex.exportProof ⟨[], [], []⟩ ⟨"b", "r", "s"⟩ .full = sampleProof := rfl
  rw [hnone, hproof, prepare_sample] at hexact
  obtain ⟨hshapes, _, hsame⟩ := hexact _ rfl
  have hbytes : sampleSummary.archiveBytes = sampleArchive.length := by
    unfold sampleSummary ManagedExportProof.summaryOf
    dsimp only
  have hsha256 : sampleSummary.archiveSha256 = samplePlatform.sha256 sampleArchive := by
    unfold sampleSummary ManagedExportProof.summaryOf
    dsimp only
  have htransfer := transfer_sample sampleSummary rfl rfl included_sampleSummary hsha256 hbytes
  have hcompared := hsame [] sampleTransfer
  rw [hnone] at hcompared
  refine ⟨_, _, congrArg Prod.fst prepare_sample, ?_, hshapes, (hcompared _ rfl htransfer).1⟩
  rw [prepare_sample]
  exact htransfer

end Pluton.Tar
