-- SUMMARY: What a managed export admits: modes, types, failures, safe paths, the snapshot index.
import Pluton.Posix

/-!
# Export policy

`backend/src/utils/restic/ManagedExportPolicy.ts` and
`backend/src/utils/managedSnapshotPath.ts`, and of `ManagedSnapshotIndex.ts` the
finished index that an export reads. Link targets are judged as text only.
-/
namespace Pluton.Tar

/-! ## Modes, types and failures -/

inductive ManagedExportMode where
  | full
  | regularFiles
  deriving DecidableEq

/-- The types that an index admits. -/
inductive NodeType where
  | file
  | dir
  | symlink
  | dev
  | chardev
  | fifo
  | socket
  deriving DecidableEq

/-- The column's text. -/
def NodeType.text : NodeType → String
  | .file => "file"
  | .dir => "dir"
  | .symlink => "symlink"
  | .dev => "dev"
  | .chardev => "chardev"
  | .fifo => "fifo"
  | .socket => "socket"

inductive ManagedExportFailure where
  | invalidExportMode
  | unsupportedNodeType
  | unsafeLinkTarget
  | symlinkGraphLimit
  | tarInvalid
  | tarExtensionUnsupported
  | tarMetadataLimit
  | archiveIncomplete
  | archiveEntryMismatch
  | archiveContentMismatch
  | exportResourceLimit
  | exportProofMissing
  | posixRestoreRequired
  deriving DecidableEq

/-- What an export is refused with. -/
inductive Failure where
  /-- A `ManagedExportError`. -/
  | refused (reason : ManagedExportFailure)
  /-- The `AppError` of `managedSnapshotPath`. -/
  | unsafePath
  /-- The repository session did not deliver the archive to its end. -/
  | interrupted
  deriving DecidableEq

/-- `throw new ManagedExportError(reason)` -/
def refuse {α : Type} (reason : ManagedExportFailure) : Except Failure α :=
  .error (.refused reason)

def exportIncludes (mode : ManagedExportMode) (type : NodeType) : Bool :=
  type == .file || type == .dir || (mode == .full && type == .symlink)

/-! ## Safe texts -/

/-- A character below a space, or DEL. -/
def isControl (ch : Char) : Bool := ch.toNat ≤ 0x1f || ch.toNat == 0x7f

def managedSnapshotPath (value : String) : Except Failure String :=
  if Js.length value > 1025 || !Js.startsWith "/" value || Js.includes '\\' value ||
      Js.includes '\uFFFD' value || value.toList.any isControl ||
      (Js.split '/' (String.ofList (value.toList.drop 1))).any
        (fun part => part == "" || part == "." || part == "..") then
    .error .unsafePath
  else .ok value

def assertManagedLinkTarget (linkPath target : String) : Except Failure Unit := do
  let _ ← managedSnapshotPath linkPath
  if target == "" || Js.byteLength target > 4096 || Js.startsWith "/" target ||
      Js.includes '\\' target || Js.includes '\uFFFD' target || target.toList.any isControl then
    refuse .unsafeLinkTarget
  else
    let resolved := Posix.join (String.ofList ((Posix.dirname linkPath).toList.drop 1)) target
    if resolved == ".." || Js.startsWith "../" resolved || Js.startsWith "/" resolved then
      refuse .unsafeLinkTarget
    else .ok ()

/-! ## Entries -/

/-- What a TAR header says of an entry, its name apart. The code keeps it as JSON,
which tells two of these apart exactly when they differ. -/
structure Metadata where
  /-- `'file'`, `'directory'` or `'symlink'`. -/
  type : String
  size : Nat
  mode : Nat
  uid : Nat
  gid : Nat
  /-- In milliseconds; the code has its ISO text. -/
  mtime : Int
  uname : String
  gname : String
  linkname : Option String
  /-- Empty where the code has no such field. -/
  pax : List (String × String)
  deriving DecidableEq

/-- `JSON.stringify({ ...metadata, name: undefined })` -/
def Metadata.text (m : Metadata) : String :=
  Js.stringify <|
    [("type", Js.quote m.type), ("size", toString m.size), ("mode", toString m.mode),
      ("uid", toString m.uid), ("gid", toString m.gid),
      ("mtime", Js.quote (Js.toISOString m.mtime)), ("uname", Js.quote m.uname),
      ("gname", Js.quote m.gname)] ++
    (m.linkname.map fun link => ("linkname", Js.quote link)).toList ++
    (if m.pax.isEmpty then []
      else [("pax", Js.stringify (m.pax.map fun (key, value) => (key, Js.quote value)))])

structure ManagedExportEntry where
  path : String
  type : NodeType
  size : Nat
  sha256 : Option String
  linkTarget : Option String
  metadata : Metadata
  deriving DecidableEq

/-- The fields of `JSON.stringify({ ...entry, path: undefined })`, in their order. The
digest is set last, when the payload has passed. -/
def ManagedExportEntry.fields (e : ManagedExportEntry) : List (String × String) :=
  [("type", Js.quote e.type.text), ("size", toString e.size)] ++
    (e.linkTarget.map fun target => ("linkTarget", Js.quote target)).toList ++
    [("metadata", Js.quote e.metadata.text)] ++
    (e.sha256.map fun digest => ("sha256", Js.quote digest)).toList

/-- Whether the walk over a link's components meets a component that leaves the
snapshot. `fuel` is what is left of the 4096 steps. -/
def walkLinkGraph (get : String → Option ManagedExportEntry) :
    Nat → List String → List String → List (String × List String) → Nat → Except Failure Unit
  | _, [], _, _, _ => .ok ()
  | 0, _ :: _, _, _, _ => refuse .symlinkGraphLimit
  | fuel + 1, part :: pending, resolved, seen, followed =>
    if part == "" || part == "." then walkLinkGraph get fuel pending resolved seen followed
    else if part == ".." then
      if resolved.isEmpty then refuse .unsafeLinkTarget
      else walkLinkGraph get fuel pending resolved.dropLast seen followed
    else
      match get ("/" ++ "/".intercalate (resolved ++ [part])) with
      | none => walkLinkGraph get fuel pending (resolved ++ [part]) seen followed
      | some entry =>
        if entry.type != .symlink then
          walkLinkGraph get fuel pending (resolved ++ [part]) seen followed
        -- a closed cycle, not permission to traverse it
        else if seen.contains (entry.path, pending) then .ok ()
        else if followed + 1 > 40 then refuse .symlinkGraphLimit
        else do
          let target := entry.linkTarget.getD ""
          assertManagedLinkTarget entry.path target
          walkLinkGraph get fuel (Js.split '/' target ++ pending) resolved
            ((entry.path, pending) :: seen) (followed + 1)

def assertManagedLinkGraph (link : ManagedExportEntry)
    (get : String → Option ManagedExportEntry) : Except Failure Unit :=
  walkLinkGraph get 4096
    ((Js.split '/' (Posix.dirname link.path)).filter (· != "") ++
      Js.split '/' (link.linkTarget.getD ""))
    [] [] 0

/-! ## The snapshot index -/

/-- A row of `nodes`, as far as an export reads it. -/
structure ManagedSnapshotNode where
  path : String
  type : NodeType
  size : Nat
  deriving DecidableEq

/-- A completed manifest; `path` is the primary key of its rows. -/
structure ManagedSnapshotIndex where
  nodes : List ManagedSnapshotNode
  nodup : (nodes.map (·.path)).Nodup

namespace ManagedSnapshotIndex

def get (index : ManagedSnapshotIndex) (filePath : String) : Option ManagedSnapshotNode :=
  index.nodes.find? (·.path == filePath)

/-- `SELECT type,count(*) AS n FROM nodes GROUP BY type ORDER BY type` -/
def typeCounts (index : ManagedSnapshotIndex) : List (NodeType × Nat) :=
  ([.chardev, .dev, .dir, .fifo, .file, .socket, .symlink].map fun type =>
    (type, index.nodes.countP (·.type == type))).filter (·.2 != 0)

/-- `assertExportEntries` for a download. -/
def assertExportEntries (index : ManagedSnapshotIndex) (mode : ManagedExportMode) :
    Except Failure Unit :=
  if mode == .full && index.typeCounts.any (fun (type, _) =>
    ! [.file, .dir, .symlink].contains type) then
    refuse .unsupportedNodeType
  else .ok ()

end ManagedSnapshotIndex

end Pluton.Tar
