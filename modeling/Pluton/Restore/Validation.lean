-- SUMMARY: The validation of a restored tree: a walk with counters, and what it decides.
import Pluton.Ends
import Pluton.PathNames
import Pluton.Tar.Policy
import Pluton.Utf8

/-!
# Validation of a restored tree

`validateRestoredFiles` of `backend/src/utils/recoveryValidation.ts`, over a tree that does
not change while it is walked and without cancellation. In such a tree the real path of an
entry is the target and the names to it. `hash` is SHA-256 as hexadecimal text.
-/
namespace Pluton.Restore

open Except Posix
open Tar (NodeType ManagedSnapshotNode ManagedSnapshotIndex ManagedExportEntry)

/-! ## Trees -/

/-- What `lstat` finds, with what can be read of it. -/
inductive Node where
  | file (content : List UInt8)
  | dir (entries : List (String × Node))
  | symlink (target : String)
  | other

mutual

/-- Names are names, and each is there once in its directory. -/
def Node.Proper : Node → Prop
  | .dir entries => ProperEntries entries
  | _ => True

def ProperEntries : List (String × Node) → Prop
  | [] => True
  | (name, node) :: entries =>
      (IsName name ∧ ∀ entry ∈ entries, entry.1 ≠ name) ∧ node.Proper ∧ ProperEntries entries

end

/-- The file tree at the target. -/
structure FileTree where
  root : Node
  proper : root.Proper

/-! ## Expected entries -/

/-- What the walk asks of the expected entries; the texts are absolute. -/
structure Expected where
  get : String → Option ManagedSnapshotNode
  hasChildren : String → Bool
  files : Nat
  directories : Nat
  links : Nat

/-- The entries as a list; `new Map` keeps the last one of a path. -/
def expectedOfList (files : List ManagedSnapshotNode) : Expected where
  get path := files.reverse.find? (·.path == path)
  hasChildren path := files.any fun file => Js.startsWith (path ++ "/") file.path
  files := (files.filter (·.type == .file)).length
  directories := (files.filter (·.type == .dir)).length
  links := (files.filter (·.type == .symlink)).length

/-- `SELECT 1 FROM nodes WHERE path >= ? AND path < ? LIMIT 1`; SQLite compares the bytes. -/
def hasDescendant (index : ManagedSnapshotIndex) (filePath : String) : Bool :=
  index.nodes.any fun node => Utf8.bytesOf (filePath ++ "/") ≤ Utf8.bytesOf node.path &&
    Utf8.bytesOf node.path < Utf8.bytesOf (filePath ++ "0")

def expectedOfIndex (index : ManagedSnapshotIndex) : Expected where
  get := index.get
  hasChildren := hasDescendant index
  files := index.nodes.countP (·.type == .file)
  directories := (index.typeCounts.lookup .dir).getD 0
  links := (index.typeCounts.lookup .symlink).getD 0

/-! ## The walk -/

/-- The codes of the errors. -/
inductive Reason where
  | unsafeWorkspace
  | unsupportedSnapshotFile
  | restoredLinkTargetMismatch
  | restoredFileCountMismatch
  | restoredFileSizeMismatch
  | restoredFileHashMismatch
  deriving DecidableEq

/-- The counters. -/
structure Tally where
  count : Nat
  bytes : Nat
  directories : Nat
  links : Nat

def Tally.zero : Tally := ⟨0, 0, 0, 0⟩

def Tally.add (tally added : Tally) : Tally :=
  ⟨tally.count + added.count, tally.bytes + added.bytes, tally.directories + added.directories,
    tally.links + added.links⟩

section
variable (hash : List UInt8 → String) (expected : Expected)
  (verified : Option (String → Option ManagedExportEntry))

/-- The content of a file against the proof. -/
def checkContent (file : ManagedSnapshotNode) (content : List UInt8) : Except Reason Unit :=
  match verified with
  | none => return
  | some get => do
    let proof := get file.path
    let digest := (proof.bind (·.sha256)).getD ""
    refuseIf (proof.map (·.type) != some .file || digest == "") .restoredFileCountMismatch
    refuseIf (hash content != digest) .restoredFileHashMismatch

/-- What is checked of one entry, and what it adds to the counters. -/
def checkEntry (path : String) : Node → Except Reason Tally
  | .symlink target => do
    let proof := verified.bind fun get => get path
    refuseIf ((expected.get path).map (·.type) != some .symlink ||
        proof.map (·.type) != some .symlink ||
        proof.bind (·.linkTarget) != some target)
      (if verified.isSome then .restoredLinkTargetMismatch else .unsupportedSnapshotFile)
    return ⟨0, 0, 0, 1⟩
  | .other => .error .unsupportedSnapshotFile
  | .dir _ => do
    refuseIf ((expected.get path).isNone && !expected.hasChildren path) .restoredFileCountMismatch
    refuseIf ((expected.get path).any (·.type != .dir)) .restoredFileCountMismatch
    return ⟨0, 0, if (expected.get path).map (·.type) == some .dir then 1 else 0, 0⟩
  | .file content =>
    match expected.get path with
    | none => .error .restoredFileCountMismatch
    | some file => do
      refuseIf (file.type != .file) .restoredFileCountMismatch
      refuseIf (file.size != content.length) .restoredFileSizeMismatch
      checkContent hash verified file content
      return ⟨1, content.length, 0, 0⟩

mutual

/-- One entry; `names` are those from the target to it. -/
def walkEntry (names : List String) (tally : Tally) : Node → Except Reason Tally
  | .dir entries => do
    let added ← checkEntry hash expected verified (ofNames names) (.dir entries)
    walk names (tally.add added) entries
  | node => do
    let added ← checkEntry hash expected verified (ofNames names) node
    return tally.add added

/-- The entries of a directory. -/
def walk (directory : List String) (tally : Tally) : List (String × Node) → Except Reason Tally
  | [] => return tally
  | (name, node) :: entries => do
    let tally ← walkEntry (directory ++ [name]) tally node
    walk directory tally entries

end

/-- The number of files and their bytes. -/
def validateRestoredFiles (target : Node) : Except Reason (Nat × Nat) :=
  match target with
  | .dir entries => do
    let tally ← walk hash expected verified [] .zero entries
    refuseIf (tally.count != expected.files) .restoredFileCountMismatch
    refuseIf (tally.directories != expected.directories ||
      tally.links != expected.links) .restoredFileCountMismatch
    return (tally.count, tally.bytes)
  | _ => .error .unsafeWorkspace

end

/-! ## The walk as one loop -/

mutual

/-- What is below an entry, in the order of the walk. -/
def Node.inside (names : List String) : Node → List (List String × Node)
  | .dir entries => listed names entries
  | _ => []

def listed (directory : List String) : List (String × Node) → List (List String × Node)
  | [] => []
  | (name, node) :: entries =>
      (directory ++ [name], node) :: (node.inside (directory ++ [name]) ++ listed directory entries)

end

section
variable {hash : List UInt8 → String} {expected : Expected}
  {verified : Option (String → Option ManagedExportEntry)} {names directory : List String}
  {tally : Tally} {node : Node} {entries : List (String × Node)}

/-- One entry of the loop. -/
def visit (hash : List UInt8 → String) (expected : Expected)
    (verified : Option (String → Option ManagedExportEntry)) (tally : Tally)
    (found : List String × Node) : Except Reason Tally := do
  let added ← checkEntry hash expected verified (ofNames found.1) found.2
  return tally.add added

mutual

theorem walkEntry_eq (names : List String) (tally : Tally) : ∀ node : Node,
    walkEntry hash expected verified names tally node =
      ((names, node) :: node.inside names).foldlM (visit hash expected verified) tally
  | .dir entries => by
      rw [List.foldlM_cons, Node.inside, walkEntry, visit]
      simp only [bind_assoc, pure_bind]
      exact bind_congr fun added => walk_eq names (tally.add added) entries
  | .file content => by simp [walkEntry, Node.inside, visit]
  | .symlink target => by simp [walkEntry, Node.inside, visit]
  | .other => by simp [walkEntry, Node.inside, visit]

theorem walk_eq (directory : List String) (tally : Tally) : ∀ entries : List (String × Node),
    walk hash expected verified directory tally entries =
      (listed directory entries).foldlM (visit hash expected verified) tally
  | [] => by simp [walk, listed]
  | (name, node) :: entries => by
      rw [walk, listed, walkEntry_eq (directory ++ [name]) tally node,
        ← List.cons_append, List.foldlM_append]
      exact bind_congr fun next => walk_eq directory next entries

end

/-! ## What a step decides -/

/-- An expected entry and what is found in its place; with a proof also its content. A link is
never admitted without a proof. -/
def Fulfils (hash : List UInt8 → String) (verified : Option (String → Option ManagedExportEntry))
    (file : ManagedSnapshotNode) :
    Node → Prop
  | .file content => file.type = .file ∧ file.size = content.length ∧ ∀ get, verified = some get →
      ∃ proof, get file.path = some proof ∧ proof.type = .file ∧
        proof.sha256 = some (hash content) ∧ hash content ≠ ""
  | .symlink target => file.type = .symlink ∧ ∃ get, verified = some get ∧
      ∃ proof, get file.path = some proof ∧ proof.type = .symlink ∧ proof.linkTarget = some target
  | .dir _ => file.type = .dir
  | .other => False

/-- What the walk is told of some entries. -/
structure Shows (expected : Expected) (files : List ManagedSnapshotNode) : Prop where
  get : ∀ {path file}, expected.get path = some file ↔ file ∈ files ∧ file.path = path
  hasChildren : ∀ {path}, expected.hasChildren path = true ↔ ∃ file ∈ files, Below path file.path
  fileCount : expected.files = files.countP (·.type == .file)
  directoryCount : expected.directories = files.countP (·.type == .dir)
  linkCount : expected.links = files.countP (·.type == .symlink)

/-- A directory between the target and an expected entry. -/
def Implicit (files : List ManagedSnapshotNode) (path : String) (node : Node) : Prop :=
  (∃ entries, node = .dir entries) ∧ (∀ file ∈ files, file.path ≠ path) ∧ ∃ file ∈ files,
    Below path file.path

variable {files : List ManagedSnapshotNode} {file : ManagedSnapshotNode} {path : String}
  {content : List UInt8} {target : String}

theorem Shows.get_none (h : Shows expected files) :
    expected.get path = none ↔ ∀ file ∈ files, file.path ≠ path := by
  constructor
  · intro hnone file hfile hpath
    rw [h.get.mpr ⟨hfile, hpath⟩] at hnone
    cases hnone
  · intro hnone
    cases hcase : expected.get path with
    | none => rfl
    | some file => exact absurd (h.get.mp hcase).2 (hnone file (h.get.mp hcase).1)

theorem checkContent_ok : checkContent hash verified file content = .ok () ↔
    ∀ get, verified = some get →
    ∃ proof, get file.path = some proof ∧ proof.type = .file ∧
      proof.sha256 = some (hash content) ∧ hash content ≠ "" := by
  unfold checkContent
  cases verified with
  | none => simp
  | some get =>
      simp only [bind_eq_ok, refuseIf_eq_ok, Option.some.injEq, forall_eq', Bool.or_eq_false_iff,
        bne_eq_false_iff_eq, beq_eq_false_iff_ne, exists_const, Option.map_eq_some_iff]
      constructor
      · rintro ⟨⟨⟨proof, hproof, htype⟩, hne⟩, hdigest⟩
        rw [hproof, Option.bind_some] at hne hdigest
        cases hsha : proof.sha256 with
        | none =>
            rw [hsha] at hne
            exact absurd rfl hne
        | some digest =>
            rw [hsha, Option.getD_some] at hne hdigest
            exact ⟨proof, hproof, htype, hsha.trans (congrArg some hdigest.symm), hdigest ▸ hne⟩
      · rintro ⟨proof, hproof, htype, hsha, hne⟩
        rw [hproof, Option.bind_some, hsha, Option.getD_some]
        exact ⟨⟨⟨proof, rfl, htype⟩, hne⟩, rfl⟩

/-- The counters of an entry that is found in the place of an expected one. -/
def added (expected : Expected) (path : String) : Node → Tally
  | .file content => ⟨1, content.length, 0, 0⟩
  | .symlink _ => ⟨0, 0, 0, 1⟩
  | .dir _ => ⟨0, 0, if (expected.get path).map (·.type) == some .dir then 1 else 0, 0⟩
  | .other => .zero

/-- An entry passes in the place of an expected one that agrees, or as a directory above one. -/
theorem checkEntry_eq_ok (h : Shows expected files) {t : Tally} :
    checkEntry hash expected verified path node = .ok t ↔
    t = added expected path node ∧
      ((∃ file ∈ files, file.path = path ∧ Fulfils hash verified file node) ∨
        Implicit files path node) := by
  cases node with
  | other => simp [checkEntry, Fulfils, Implicit]
  | symlink target =>
      -- only a directory can be there without an entry of its own
      have hlink : (∃ file ∈ files, file.path = path ∧
          Fulfils hash verified file (.symlink target)) ∨
          Implicit files path (.symlink target) ↔
          ∃ file ∈ files, file.path = path ∧ Fulfils hash verified file (.symlink target) :=
        or_iff_left fun himplicit => by
          obtain ⟨entries, hdir⟩ := himplicit.1
          cases hdir
      rw [hlink]
      simp only [checkEntry, bind_eq_ok, refuseIf_eq_ok, pure_eq_ok, Bool.or_eq_false_iff,
        bne_eq_false_iff_eq, Option.map_eq_some_iff, Option.bind_eq_some_iff, exists_const]
      constructor
      · rintro ⟨⟨⟨⟨file, hfile, htype⟩, ⟨proof, ⟨get, hverified, hproof⟩, hproofType⟩⟩, proof',
          ⟨get', hverified', hproof'⟩, htarget⟩, rfl⟩
        obtain ⟨hmem, rfl⟩ := h.get.mp hfile
        obtain rfl : get = get' := Option.some.inj (hverified.symm.trans hverified')
        obtain rfl : proof = proof' := Option.some.inj (hproof.symm.trans hproof')
        exact ⟨rfl, file, hmem, rfl, htype, get, hverified, proof, hproof, hproofType, htarget⟩
      · rintro ⟨rfl, file, hmem, rfl, htype, get, hverified, proof, hproof, hproofType, htarget⟩
        exact ⟨⟨⟨⟨file, h.get.mpr ⟨hmem, rfl⟩, htype⟩, proof, ⟨get, hverified, hproof⟩, hproofType⟩,
          proof, ⟨get, hverified, hproof⟩, htarget⟩, rfl⟩
  | dir entries =>
      simp only [checkEntry, bind_eq_ok, refuseIf_eq_ok, pure_eq_ok, exists_const]
      have ht : ∀ {u : Tally} {p q : Prop}, (p ∧ q ∧ u = t) ↔ t = u ∧ p ∧ q := fun {u p q} =>
        ⟨fun hall => ⟨hall.2.2.symm, hall.1, hall.2.1⟩,
          fun hall => ⟨hall.2.1, hall.2.2, hall.1.symm⟩⟩
      rw [ht]
      refine and_congr_right fun _ => ?_
      cases hget : expected.get path with
      | none =>
          have hnone := h.get_none.mp hget
          simp only [Option.isNone_none, Bool.true_and, Bool.not_eq_false', Option.any_none,
            and_true, h.hasChildren]
          constructor
          · exact fun hbelow => .inr ⟨⟨entries, rfl⟩, hnone, hbelow⟩
          · rintro (⟨file, hmem, hpath, -⟩ | himplicit)
            · exact absurd hpath (hnone file hmem)
            · exact himplicit.2.2
      | some file =>
          obtain ⟨hmem, rfl⟩ := h.get.mp hget
          simp only [Option.isNone_some, Bool.false_and, true_and, Option.any_some,
            bne_eq_false_iff_eq]
          constructor
          · exact fun htype => .inl ⟨file, hmem, rfl, htype⟩
          · rintro (⟨other, hother, hpath, htype⟩ | himplicit)
            · have hsame : file = other :=
                Option.some.inj (hget.symm.trans (h.get.mpr ⟨hother, hpath⟩))
              exact hsame ▸ htype
            · exact absurd rfl (himplicit.2.1 file hmem)
  | file content =>
      have hregular : (∃ file ∈ files, file.path = path ∧
          Fulfils hash verified file (.file content)) ∨
          Implicit files path (.file content) ↔
          ∃ file ∈ files, file.path = path ∧ Fulfils hash verified file (.file content) :=
        or_iff_left fun himplicit => by
          obtain ⟨entries, hdir⟩ := himplicit.1
          cases hdir
      rw [hregular]
      unfold checkEntry
      cases hget : expected.get path with
      | none =>
          refine iff_of_false (by rintro ⟨⟩) ?_
          rintro ⟨-, file, hmem, hpath, -⟩
          exact h.get_none.mp hget file hmem hpath
      | some file =>
          obtain ⟨hmem, rfl⟩ := h.get.mp hget
          simp only [bind_eq_ok, refuseIf_eq_ok, pure_eq_ok, bne_eq_false_iff_eq, exists_const]
          constructor
          · rintro ⟨htype, hsize, _, hchecked, rfl⟩
            have hcontent := checkContent_ok.mp hchecked
            exact ⟨rfl, file, hmem, rfl, htype, hsize, hcontent⟩
          · rintro ⟨rfl, other, hother, hpath, htype, hsize, hcontent⟩
            have hsame : file = other :=
              Option.some.inj (hget.symm.trans (h.get.mpr ⟨hother, hpath⟩))
            subst hsame
            exact ⟨htype, hsize, (), checkContent_ok.mpr hcontent, rfl⟩

/-! ## The counters -/

def Tally.counter (tally : Tally) : NodeType → Nat
  | .file => tally.count
  | .dir => tally.directories
  | .symlink => tally.links
  | _ => 0

def Expected.counter (expected : Expected) : NodeType → Nat
  | .file => expected.files
  | .dir => expected.directories
  | .symlink => expected.links
  | _ => 0

/-- The types that are counted. -/
def Counted (type : NodeType) : Prop := type = .file ∨ type = .dir ∨ type = .symlink

/-- The type of the expected entry in a place. -/
def kindAt (expected : Expected) (found : List String × Node) : Option NodeType :=
  (expected.get (ofNames found.1)).map (·.type)

/-- What is found is admitted where it is. -/
def Passes (hash : List UInt8 → String) (verified : Option (String → Option ManagedExportEntry))
    (files : List ManagedSnapshotNode) (path : String) (node : Node) : Prop :=
  (∃ file ∈ files, file.path = path ∧ Fulfils hash verified file node) ∨ Implicit files path node

variable {found : List String × Node} {list : List (List String × Node)} {type : NodeType}
  {tally' : Tally}

theorem Shows.counter (h : Shows expected files) (htype : Counted type) :
    expected.counter type = files.countP (·.type == type) := by
  rcases htype with rfl | rfl | rfl
  · exact h.fileCount
  · exact h.directoryCount
  · exact h.linkCount

/-- An admitted entry adds to the counter of the expected type, and to no other. -/
theorem counter_added (h : Shows expected files)
    (hpasses : Passes hash verified files (ofNames found.1) found.2) (htype : Counted type) :
    (added expected (ofNames found.1) found.2).counter type =
      if kindAt expected found == some type then 1 else 0 := by
  obtain ⟨names, node⟩ := found
  unfold kindAt
  rcases hpasses with ⟨file, hmem, hpath, hagrees⟩ | ⟨⟨entries, rfl⟩, hnone, -⟩
  · rw [h.get.mpr ⟨hmem, hpath⟩, Option.map_some]
    cases node with
    | other => cases hagrees
    | file content => rcases htype with rfl | rfl | rfl <;> simp [added, Tally.counter, hagrees.1]
    | symlink target => rcases htype with rfl | rfl | rfl <;> simp [added, Tally.counter, hagrees.1]
    | dir entries =>
        have hdir : file.type = .dir := hagrees
        rcases htype with rfl | rfl | rfl <;>
          simp [added, Tally.counter, h.get.mpr ⟨hmem, hpath⟩, hdir]
  · rw [h.get_none.mpr hnone]
    rcases htype with rfl | rfl | rfl <;> simp [added, Tally.counter, h.get_none.mpr hnone]

/-- The loop admits each entry, and its counters are the numbers of the expected types met. -/
theorem foldlM_visit (h : Shows expected files)
    (hrun : list.foldlM (visit hash expected verified) tally = .ok tally') :
    (∀ found ∈ list, Passes hash verified files (ofNames found.1) found.2) ∧
      ∀ type, Counted type → tally'.counter type =
        tally.counter type + list.countP (kindAt expected · == some type) := by
  induction list generalizing tally with
  | nil =>
      obtain rfl := pure_eq_ok.mp hrun
      exact ⟨nofun, fun type _ => by rw [List.countP_nil, Nat.add_zero]⟩
  | cons found list ih =>
      rw [List.foldlM_cons, visit, bind_assoc] at hrun
      simp only [pure_bind, bind_eq_ok] at hrun
      obtain ⟨_, hcheck, hrest⟩ := hrun
      obtain ⟨rfl, hpasses⟩ := (checkEntry_eq_ok h).mp hcheck
      obtain ⟨hall, hcounters⟩ := ih hrest
      refine ⟨List.forall_mem_cons.mpr ⟨hpasses, hall⟩, fun type htype => ?_⟩
      have hadd : (tally.add (added expected (ofNames found.1) found.2)).counter type =
          tally.counter type + (added expected (ofNames found.1) found.2).counter type := by
        rcases htype with rfl | rfl | rfl <;> rfl
      rw [hcounters type htype, hadd, counter_added h hpasses htype, List.countP_cons]
      omega

theorem foldlM_visit_ok (h : Shows expected files)
    (hall : ∀ found ∈ list, Passes hash verified files (ofNames found.1) found.2) :
    ∃ tally', list.foldlM (visit hash expected verified) tally = .ok tally' := by
  induction list generalizing tally with
  | nil => exact ⟨tally, rfl⟩
  | cons found list ih =>
      obtain ⟨hpasses, hrest⟩ := List.forall_mem_cons.mp hall
      rw [List.foldlM_cons, visit, (checkEntry_eq_ok h).mpr ⟨rfl, hpasses⟩]
      exact ih hrest

/-- The validation succeeds exactly if each entry is admitted and the
counters are those expected. -/
theorem validate_dir (h : Shows expected files) :
    (∃ result, validateRestoredFiles hash expected verified (.dir entries) = .ok result) ↔
      (∀ found ∈ listed [] entries, Passes hash verified files (ofNames found.1) found.2) ∧
        ∀ type, Counted type → (listed [] entries).countP (kindAt expected · == some type) =
          files.countP (·.type == type) := by
  unfold validateRestoredFiles
  simp only [bind_eq_ok, refuseIf_eq_ok, pure_eq_ok, walk_eq, Bool.or_eq_false_iff,
    bne_eq_false_iff_eq, exists_const]
  have hzero : ∀ type, Tally.zero.counter type = 0 := fun type => by cases type <;> rfl
  constructor
  · rintro ⟨_, tally, hrun, hcount, ⟨hdirectories, hlinks⟩, -⟩
    obtain ⟨hall, hcounters⟩ := foldlM_visit h hrun
    refine ⟨hall, fun type htype => ?_⟩
    rw [← h.counter htype, ← Nat.zero_add (List.countP _ _), ← hzero type, ← hcounters type htype]
    rcases htype with rfl | rfl | rfl
    · exact hcount
    · exact hdirectories
    · exact hlinks
  · rintro ⟨hall, hcounts⟩
    obtain ⟨tally, hrun⟩ : ∃ tally,
        (listed [] entries).foldlM (visit hash expected verified) .zero = .ok tally :=
      foldlM_visit_ok h hall
    have hcounters : ∀ type, Counted type → tally.counter type = expected.counter type := by
      intro type htype
      rw [(foldlM_visit h hrun).2 type htype, hzero, Nat.zero_add,
        hcounts type htype, h.counter htype]
    exact ⟨_, tally, hrun, hcounters .file (.inl rfl),
      ⟨hcounters .dir (.inr (.inl rfl)), hcounters .symlink (.inr (.inr rfl))⟩, rfl⟩

/-! ## Each place once -/

/-- What is below some names: it has more names, all of them proper. -/
structure Under (front : List String) (list : List (List String × Node)) : Prop where
  names : ∀ found ∈ list, ∀ name ∈ found.1, IsName name
  below : ∀ found ∈ list, ∃ name rest, found.1 = front ++ name :: rest
  nodup : (list.map (·.1)).Nodup

theorem under_nil (front : List String) : Under front [] := ⟨nofun, nofun, List.nodup_nil⟩

mutual

theorem inside_under (names : List String) (hnames : ∀ name ∈ names, IsName name) :
    ∀ node : Node, node.Proper → Under names (node.inside names)
  | .dir entries, h => (listed_under names hnames entries h).1
  | .file _, _ => under_nil names
  | .symlink _, _ => under_nil names
  | .other, _ => under_nil names

/-- The places of a proper tree; the first name below the directory is that of an entry. -/
theorem listed_under (directory : List String) (hdirectory : ∀ name ∈ directory, IsName name) :
    ∀ entries : List (String × Node), ProperEntries entries →
      Under directory (listed directory entries) ∧
      ∀ found ∈ listed directory entries, ∃ entry ∈ entries,
        ∃ rest, found.1 = directory ++ entry.1 :: rest
  | [], _ => ⟨under_nil directory, nofun⟩
  | (name, node) :: entries, ⟨⟨hname, hfresh⟩, hnode, hentries⟩ => by
      have hnames : ∀ x ∈ directory ++ [name], IsName x := by
        intro x hx
        rcases List.mem_append.mp hx with hx | hx
        · exact hdirectory x hx
        · exact List.mem_singleton.mp hx ▸ hname
      have hinside := inside_under (directory ++ [name]) hnames node hnode
      obtain ⟨hunder, hmore⟩ := listed_under directory hdirectory entries hentries
      have hbelow : ∀ found ∈ node.inside (directory ++ [name]),
          ∃ other rest, found.1 = directory ++ name :: other :: rest := by
        intro found hfound
        obtain ⟨other, rest, heq⟩ := hinside.below found hfound
        exact ⟨other, rest, by rw [heq, List.append_assoc, List.singleton_append]⟩
      have hentry : ∀ found ∈ listed directory ((name, node) :: entries),
          ∃ entry ∈ (name, node) :: entries, ∃ rest, found.1 = directory ++ entry.1 :: rest := by
        intro found hfound
        rw [listed] at hfound
        rcases List.mem_cons.mp hfound with rfl | hfound
        · exact ⟨(name, node), List.mem_cons_self, [], rfl⟩
        · rcases List.mem_append.mp hfound with hfound | hfound
          · obtain ⟨other, rest, heq⟩ := hbelow found hfound
            exact ⟨(name, node), List.mem_cons_self, other :: rest, heq⟩
          · obtain ⟨entry, hentry, rest, heq⟩ := hmore found hfound
            exact ⟨entry, List.mem_cons_of_mem _ hentry, rest, heq⟩
      refine ⟨⟨?_, fun found hfound => ?_, ?_⟩, hentry⟩
      · rw [listed]
        refine List.forall_mem_cons.mpr ⟨hnames, fun found hfound => ?_⟩
        rcases List.mem_append.mp hfound with hfound | hfound
        · exact hinside.names found hfound
        · exact hunder.names found hfound
      · obtain ⟨entry, -, rest, heq⟩ := hentry found hfound
        exact ⟨entry.1, rest, heq⟩
      · -- the entry, what is inside it and the other entries differ in their first or second name
        have hother : ∀ names ∈ (listed directory entries).map (·.1),
            ∀ rest, names ≠ directory ++ name :: rest := by
          rintro _ hmem rest rfl
          obtain ⟨found, hfound, heq⟩ := List.mem_map.mp hmem
          obtain ⟨entry, hentry, rest', heq'⟩ := hmore found hfound
          have hsame := List.append_cancel_left (heq'.symm.trans heq)
          exact hfresh entry hentry (List.cons.inj hsame).1
        rw [listed, List.map_cons, List.map_append, List.nodup_cons]
        refine ⟨?_, List.nodup_append.mpr ⟨hinside.nodup, hunder.nodup, ?_⟩⟩
        · intro hmem
          rcases List.mem_append.mp hmem with hmem | hmem
          · obtain ⟨found, hfound, heq⟩ := List.mem_map.mp hmem
            obtain ⟨other, rest, heq'⟩ := hbelow found hfound
            have hsame := List.append_cancel_left (heq'.symm.trans heq)
            exact List.cons_ne_nil _ _ (List.cons.inj hsame).2
          · exact hother _ hmem [] rfl
        · rintro names hinner names' houter rfl
          obtain ⟨found, hfound, rfl⟩ := List.mem_map.mp hinner
          obtain ⟨other, rest, heq⟩ := hbelow found hfound
          exact hother _ houter (other :: rest) heq

end

/-- The places of a tree and what is there. -/
def placed (entries : List (String × Node)) : List (String × Node) :=
  (listed [] entries).map fun found => (ofNames found.1, found.2)

theorem nodup_places (h : ProperEntries entries) : ((placed entries).map (·.1)).Nodup := by
  obtain ⟨hunder, -⟩ := listed_under [] nofun entries h
  have hmap : (placed entries).map (·.1) = ((listed [] entries).map (·.1)).map ofNames := by
    rw [placed, List.map_map, List.map_map]
    rfl
  rw [hmap]
  refine hunder.nodup.map_on fun names hnames names' hnames' heq => ?_
  obtain ⟨found, hfound, rfl⟩ := List.mem_map.mp hnames
  obtain ⟨found', hfound', rfl⟩ := List.mem_map.mp hnames'
  exact ofNames_inj (hunder.names found hfound) (hunder.names found' hfound') heq

/-! ## What the validation decides -/

/-- The tree holds the expected entries, each as expected, and otherwise
only directories above one. -/
structure Exact (hash : List UInt8 → String)
    (verified : Option (String → Option ManagedExportEntry)) (files : List ManagedSnapshotNode)
    (entries : List (String × Node)) : Prop where
  expected : ∀ file ∈ files, ∃ node, (file.path, node) ∈ placed entries ∧
    Fulfils hash verified file node
  found : ∀ found ∈ placed entries, Passes hash verified files found.1 found.2

/-- The paths at which an entry of a type is expected and something is found. -/
def metPaths (expected : Expected) (type : NodeType) (entries : List (String × Node)) :
    List String :=
  ((placed entries).filter fun found => (expected.get found.1).map (·.type) == some type).map (·.1)

def pathsOf (type : NodeType) (files : List ManagedSnapshotNode) : List String :=
  (files.filter (·.type == type)).map (·.path)

theorem length_metPaths : (metPaths expected type entries).length =
    (listed [] entries).countP (kindAt expected · == some type) := by
  rw [metPaths, List.length_map, ← List.countP_eq_length_filter, placed, List.countP_map]
  rfl

theorem length_pathsOf : (pathsOf type files).length = files.countP (·.type == type) := by
  rw [pathsOf, List.length_map, List.countP_eq_length_filter]

theorem mem_pathsOf : path ∈ pathsOf type files ↔
    ∃ file ∈ files, file.path = path ∧ file.type = type := by
  simp only [pathsOf, List.mem_map, List.mem_filter, beq_iff_eq]
  exact exists_congr fun file => ⟨fun h => ⟨h.1.1, h.2, h.1.2⟩, fun h => ⟨⟨h.1, h.2.2⟩, h.2.1⟩⟩

theorem mem_metPaths (h : Shows expected files) : path ∈ metPaths expected type entries ↔
    path ∈ pathsOf type files ∧ ∃ node, (path, node) ∈ placed entries := by
  simp only [metPaths, List.mem_map, List.mem_filter, beq_iff_eq, Option.map_eq_some_iff,
    mem_pathsOf, Prod.exists]
  constructor
  · rintro ⟨_, node, ⟨hplaced, file, hget, htype⟩, rfl⟩
    exact ⟨⟨file, (h.get.mp hget).1, (h.get.mp hget).2, htype⟩, node, hplaced⟩
  · rintro ⟨⟨file, hmem, hpath, htype⟩, node, hplaced⟩
    exact ⟨path, node, ⟨hplaced, file, h.get.mpr ⟨hmem, hpath⟩, htype⟩, rfl⟩

theorem nodup_metPaths (hproper : ProperEntries entries) : (metPaths expected type entries).Nodup :=
  (nodup_places hproper).sublist (List.filter_sublist.map _)

/-- The counter of a type is right exactly if something is found at every path of the type. -/
theorem count_eq_iff (h : Shows expected files) (hnodup : (files.map (·.path)).Nodup)
    (hproper : ProperEntries entries) :
    (listed [] entries).countP (kindAt expected · == some type) = files.countP (·.type == type) ↔
      ∀ path ∈ pathsOf type files, ∃ node, (path, node) ∈ placed entries := by
  rw [← length_metPaths, ← length_pathsOf]
  have hmet : (metPaths expected type entries).Nodup := nodup_metPaths hproper
  have hpaths : (pathsOf type files).Nodup := hnodup.sublist (List.filter_sublist.map _)
  have hsub : metPaths expected type entries ⊆ pathsOf type files := fun path hpath =>
    ((mem_metPaths h).mp hpath).1
  constructor
  · intro hlength path hpath
    have hperm := (List.subperm_of_subset hmet hsub).perm_of_length_le hlength.ge
    exact ((mem_metPaths h).mp (hperm.mem_iff.mpr hpath)).2
  · intro hall
    have hsup : pathsOf type files ⊆ metPaths expected type entries := fun path hpath =>
      (mem_metPaths h).mpr ⟨hpath, hall path hpath⟩
    exact Nat.le_antisymm (List.subperm_of_subset hmet hsub).length_le
      (List.subperm_of_subset hpaths hsup).length_le

/-- Admitted entries and right counters together are the expected tree. -/
theorem validate_iff_exact (h : Shows expected files) (hnodup : (files.map (·.path)).Nodup)
    (htypes : ∀ file ∈ files, Counted file.type) (hproper : ProperEntries entries) :
    (∃ result, validateRestoredFiles hash expected verified (.dir entries) = .ok result) ↔
    Exact hash verified files entries := by
  have hplaced : (∀ found ∈ listed [] entries,
      Passes hash verified files (ofNames found.1) found.2) ↔
      ∀ found ∈ placed entries, Passes hash verified files found.1 found.2 := by
    simp only [placed, List.forall_mem_map]
  rw [validate_dir h, hplaced]
  constructor
  · rintro ⟨hall, hcounts⟩
    refine ⟨fun file hfile => ?_, hall⟩
    have hmem : file.path ∈ pathsOf file.type files := mem_pathsOf.mpr ⟨file, hfile, rfl, rfl⟩
    obtain ⟨node, hnode⟩ :=
      (count_eq_iff h hnodup hproper).mp (hcounts file.type (htypes file hfile)) file.path hmem
    rcases hall _ hnode with ⟨other, hother, hpath, hagrees⟩ | himplicit
    · rw [List.inj_on_of_nodup_map hnodup hother hfile hpath] at hagrees
      exact ⟨node, hnode, hagrees⟩
    · exact absurd rfl (himplicit.2.1 file hfile)
  · rintro ⟨hexpected, hfound⟩
    refine ⟨hfound, fun type _ => (count_eq_iff h hnodup hproper).mpr fun path hpath => ?_⟩
    obtain ⟨file, hfile, rfl, -⟩ := mem_pathsOf.mp hpath
    exact (hexpected file hfile).imp fun node hnode => hnode.1

/-! ## The two forms -/

theorem find_iff (hnodup : (files.map (·.path)).Nodup) :
    files.find? (·.path == path) = some file ↔ file ∈ files ∧ file.path = path := by
  constructor
  · intro hfind
    have hpath := List.find?_some hfind
    exact ⟨List.mem_of_find?_eq_some hfind, beq_iff_eq.mp hpath⟩
  · rintro ⟨hfile, rfl⟩
    cases hcase : files.find? (·.path == file.path) with
    | none => exact absurd (List.find?_eq_none.mp hcase file hfile) (by simp)
    | some other =>
        have hpath := List.find?_some hcase
        rw [List.inj_on_of_nodup_map hnodup (List.mem_of_find?_eq_some hcase) hfile
          (beq_iff_eq.mp hpath)]

theorem expectedOfList_shows (hnodup : (files.map (·.path)).Nodup) :
    Shows (expectedOfList files) files where
  get := by
    intro path file
    have hreverse : (files.reverse.map (·.path)).Nodup := by
      rw [List.map_reverse]
      exact List.nodup_reverse.mpr hnodup
    exact (find_iff hreverse).trans (and_congr_left fun _ => List.mem_reverse)
  hasChildren := by
    intro path
    simp only [expectedOfList, List.any_eq_true, startsWith_slash]
  fileCount := (List.countP_eq_length_filter).symm
  directoryCount := (List.countP_eq_length_filter).symm
  linkCount := (List.countP_eq_length_filter).symm

/-- The range of the query is what lies below the path. -/
theorem hasDescendant_iff {index : ManagedSnapshotIndex} :
    hasDescendant index path = true ↔ ∃ node ∈ index.nodes, Below path node.path := by
  have hslash : Utf8.bytesOf (path ++ "/") = Utf8.bytesOf path ++ [0x2F] := by
    rw [Utf8.bytesOf_append]
    congr 1
  have hzero : Utf8.bytesOf (path ++ "0") = Utf8.bytesOf path ++ [0x30] := by
    rw [Utf8.bytesOf_append]
    congr 1
  have hbelow : ∀ other : String, Below path other ↔
      Utf8.bytesOf path ++ [0x2F] <+: Utf8.bytesOf other := by
    intro other
    rw [← hslash, Utf8.bytesOf, Utf8.bytesOf, Utf8.encode_prefix_iff, String.toList_append]
    exact Iff.rfl
  have hnext : ∀ c : UInt8, ¬ (0x2F < c ∧ c < 0x30) := by
    rintro c ⟨hlow, hhigh⟩
    have hlow' := UInt8.lt_iff_toNat_lt.mp hlow
    have hhigh' := UInt8.lt_iff_toNat_lt.mp hhigh
    simp at hlow' hhigh'
    omega
  simp only [hasDescendant, List.any_eq_true, Bool.and_eq_true, decide_eq_true_eq, hslash, hzero,
    Utf8.prefix_iff_range hnext (by decide), hbelow]

theorem typeCounts_lookup (index : ManagedSnapshotIndex) (type : NodeType) :
    (index.typeCounts.lookup type).getD 0 = index.nodes.countP (·.type == type) := by
  cases hlookup : index.typeCounts.lookup type with
  | some count =>
      obtain ⟨before, after, hcounts, -⟩ := List.lookup_eq_some_iff.mp hlookup
      have hmem : (type, count) ∈ index.typeCounts :=
        hcounts ▸ List.mem_append_right before List.mem_cons_self
      obtain ⟨other, -, heq⟩ := List.mem_map.mp (List.mem_filter.mp hmem).1
      obtain ⟨rfl, rfl⟩ := Prod.mk.inj heq
      rfl
  | none =>
      have hmissing := List.lookup_eq_none_iff.mp hlookup
      have hall : type ∈ [NodeType.chardev, .dev, .dir, .fifo, .file, .socket, .symlink] := by
        cases type <;> decide
      by_contra hcount
      have hmem : (type, index.nodes.countP (·.type == type)) ∈ index.typeCounts :=
        List.mem_filter.mpr ⟨List.mem_map_of_mem hall,
          bne_iff_ne.mpr fun hzero => hcount hzero.symm⟩
      simpa using hmissing _ hmem

theorem expectedOfIndex_shows (index : ManagedSnapshotIndex) :
    Shows (expectedOfIndex index) index.nodes where
  get := find_iff index.nodup
  hasChildren := hasDescendant_iff
  fileCount := rfl
  directoryCount := typeCounts_lookup index .dir
  linkCount := typeCounts_lookup index .symlink

theorem Shows.unique {other : Expected} (h : Shows expected files) (h' : Shows other files) :
    expected = other := by
  have hget : expected.get = other.get :=
    funext fun path => Option.ext fun file => h.get.trans h'.get.symm
  have hchildren : expected.hasChildren = other.hasChildren := funext fun path =>
    Bool.eq_iff_iff.mpr (h.hasChildren.trans h'.hasChildren.symm)
  have hfiles := h.fileCount.trans h'.fileCount.symm
  have hdirectories := h.directoryCount.trans h'.directoryCount.symm
  have hlinks := h.linkCount.trans h'.linkCount.symm
  cases expected
  cases other
  simp_all

theorem Shows.perm {others : List ManagedSnapshotNode} (h : Shows expected files)
    (hperm : files.Perm others) :
    Shows expected others where
  get := h.get.trans (and_congr_left fun _ => hperm.mem_iff)
  hasChildren := h.hasChildren.trans (exists_congr fun _ => and_congr_left fun _ => hperm.mem_iff)
  fileCount := h.fileCount.trans (hperm.countP_eq _)
  directoryCount := h.directoryCount.trans (hperm.countP_eq _)
  linkCount := h.linkCount.trans (hperm.countP_eq _)

theorem validate_root (hroot : ∀ entries, node ≠ .dir entries) :
    validateRestoredFiles hash expected verified node = .error .unsafeWorkspace := by
  cases node with
  | dir entries => exact absurd rfl (hroot entries)
  | file _ => rfl
  | symlink _ => rfl
  | other => rfl

/-- The validation of a tree succeeds exactly if the tree holds the expected entries and
otherwise only directories above them, whichever form they are given in; a link is
admitted with a proof only. -/
theorem validateRestoredFiles_exact (hash : List UInt8 → String)
    (verified : Option (String → Option ManagedExportEntry)) (files : List ManagedSnapshotNode)
    (hnodup : (files.map (·.path)).Nodup) (htypes : ∀ file ∈ files, Counted file.type)
    (tree : FileTree) :
    ((∃ result, validateRestoredFiles hash (expectedOfList files) verified tree.root = .ok result) ↔
        ∃ entries, tree.root = .dir entries ∧ Exact hash verified files entries) ∧
      ∀ index : ManagedSnapshotIndex, index.nodes.Perm files →
        validateRestoredFiles hash (expectedOfIndex index) verified tree.root =
          validateRestoredFiles hash (expectedOfList files) verified tree.root := by
  have hshows := expectedOfList_shows hnodup
  refine ⟨?_, fun index hperm => ?_⟩
  · by_cases hroot : ∃ entries, tree.root = .dir entries
    · obtain ⟨entries, hroot⟩ := hroot
      have hproper : ProperEntries entries := by
        have hproper := tree.proper
        rwa [hroot, Node.Proper] at hproper
      rw [hroot, validate_iff_exact hshows hnodup htypes hproper]
      simp only [Node.dir.injEq, exists_eq_left']
    · rw [validate_root (not_exists.mp hroot)]
      exact iff_of_false nofun fun ⟨entries, hdir, _⟩ => hroot ⟨entries, hdir⟩
  · rw [((expectedOfIndex_shows index).perm hperm).unique hshows]

end

/-! ## A link without a proof -/

/-- A tree with a link beside a directory that holds a file. -/
def sampleTree : FileTree where
  root := .dir [("a", .dir [("b", .file [104, 105])]), ("c", .symlink "a/b")]
  proper := by simp [Node.Proper, ProperEntries, IsName]

def sampleEntries : List ManagedSnapshotNode := [⟨"/a/b", .file, 2⟩, ⟨"/c", .symlink, 3⟩]

/-- The hexadecimal digest of the file's content, and of nothing else. -/
def sampleHash (content : List UInt8) : String :=
  if content == [104, 105] then
    "8f434346648f6b96df89dda901c5176b10a6d83961dd3c1ac88b59b2dc327aa4"
  else "other"

def sampleProof (path : String) : Option ManagedExportEntry :=
  if path == "/a/b" then
    some ⟨"/a/b", .file, 2,
      some "8f434346648f6b96df89dda901c5176b10a6d83961dd3c1ac88b59b2dc327aa4", none,
      ⟨"file", 2, 0, 0, 0, 0, "", "", none, []⟩⟩
  else if path == "/c" then
    some ⟨"/c", .symlink, 0, none, some "a/b", ⟨"symlink", 0, 0, 0, 0, 0, "", "", some "a/b", []⟩⟩
  else none

/-- With the proof, the tree is the expected one; the directory is there for the file's sake. -/
theorem validateRestoredFiles_exact_sample :
    ∃ entries, sampleTree.root = .dir entries ∧
      Exact sampleHash (some sampleProof) sampleEntries entries :=
  (validateRestoredFiles_exact sampleHash (some sampleProof) sampleEntries (by decide)
    (by simp [sampleEntries, Counted]) sampleTree).1.mp ⟨(1, 2), by decide⟩

/-- Without a proof the same tree is refused, though it holds what is expected: the file of
the right size, the link, and one directory above the file. -/
theorem link_refused_without_proof :
    placed [("a", .dir [("b", .file [104, 105])]), ("c", .symlink "a/b")] =
        [("/a", .dir [("b", .file [104, 105])]), ("/a/b", .file [104, 105]),
          ("/c", .symlink "a/b")] ∧
      sampleEntries.map (fun file => (file.path, file.type)) = [("/a/b", .file), ("/c", .symlink)] ∧
      validateRestoredFiles sampleHash (expectedOfList sampleEntries) none sampleTree.root =
        .error .unsupportedSnapshotFile := by
  refine ⟨?_, rfl, by decide⟩
  simp [placed, listed, Node.inside, ofNames, String.intercalate_cons_cons]

end Pluton.Restore
