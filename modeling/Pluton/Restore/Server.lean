-- SUMMARY: The selection of a staged recovery on the server: what is chosen and refused.
import Pluton.Ends
import Pluton.PathNames
import Pluton.Restore.Browser
import Pluton.Tar.Policy

/-!
# The selection of a staged recovery

`select` of `backend/src/services/RemoteRepositoryRecoveryService.ts`, and
`assertManagedRestorePath` of `backend/src/utils/managedSnapshotPath.ts`. A map from paths
to nodes is the list of its nodes in the order in which their paths were set.
-/
namespace Pluton.Restore.Server

open Tar

structure AppError where
  status : Nat
  message : String
  deriving DecidableEq

structure RestoreConfig where
  includes : List String
  excludes : List String

structure RestoreStats where
  totalFiles : Nat
  filesRestored : Nat
  totalBytes : Nat
  bytesRestored : Nat
  deriving DecidableEq

structure Selection where
  files : List ManagedSnapshotNode
  includes : List String
  full : Bool
  stats : RestoreStats
  deriving DecidableEq

/-! ## Refusals -/

def notFound : AppError := ⟨404, "Selected snapshot path was not found."⟩

def nothingSelected : AppError := ⟨400, "No entries were selected for staged recovery."⟩

def tooLarge : AppError := ⟨400, "The granular selection is too large."⟩

def tooLargeOrWildcard : AppError :=
  ⟨400, "The granular selection is too large or contains wildcard filenames."⟩

def specialNodes : AppError :=
  ⟨400, "Staged recovery refuses special nodes or links unsupported by the destination."⟩

def notRestorable : AppError :=
  ⟨400,
    "No safely restorable entries were selected. A non-empty directory cannot be restored as metadata only."⟩

def unsafePath : AppError := ⟨400, "Snapshot path must be an exact safe absolute POSIX path."⟩

def windowsName : AppError := ⟨409, "Snapshot filenames require a POSIX restore destination."⟩

def unsupportedNodeType : AppError :=
  ⟨409,
    "Full Download and Restore refuse special filesystem nodes. Download Regular Files Only is an explicitly partial alternative."⟩

def posixRestoreRequired : AppError :=
  ⟨409, "Symbolic-link reconstruction requires an isolated Linux or POSIX staging destination."⟩

/-! ## Names on Windows -/

/-- The names that Windows keeps for devices. -/
def deviceNames : List String :=
  ["con", "prn", "aux", "nul"] ++
    (["com", "lpt"].flatMap fun name =>
      ["1", "2", "3", "4", "5", "6", "7", "8", "9"].map (name ++ ·))

/-- `/[<>:"|?*]|[. ]$/` or `/^(con|prn|aux|nul|com[1-9]|lpt[1-9])(?:\.|$)/i` -/
def isWindowsAlias (part : String) : Bool :=
  part.toList.any (['<', '>', ':', '"', '|', '?', '*'].contains ·) ||
    (match part.toList.getLast? with
      | some ch => ch == '.' || ch == ' '
      | none => false) ||
    deviceNames.contains (String.ofList ((part.toList.takeWhile (· != '.')).map Char.toLower))

/-- `windows` is `process.platform === 'win32'`. -/
def assertManagedRestorePath (value : String) (windows : Bool) : Except AppError Unit := do
  let _ ← (managedSnapshotPath value).mapError fun _ => unsafePath
  if windows && (Js.split '/' (String.ofList (value.toList.drop 1))).any isWindowsAlias then
    .error windowsName
  else .ok ()

/-! ## Choosing -/

/-- `contains` of `select`. -/
def contains (selection file : String) : Bool :=
  selection == file || Js.startsWith (selection ++ "/") file

def RestoreConfig.covers (config : RestoreConfig) (file : String) : Bool :=
  (config.includes.isEmpty || config.includes.any (contains · file)) &&
    !config.excludes.any (contains · file)

/-- `chosen.has(path)` -/
def has (chosen : List ManagedSnapshotNode) (path : String) : Bool := chosen.any (·.path == path)

/-- `chosen.set(file.path, file)` -/
def setNode (chosen : List ManagedSnapshotNode) (file : ManagedSnapshotNode) :
    List ManagedSnapshotNode :=
  if has chosen file.path then chosen.map fun node => if node.path == file.path then file else node
  else chosen ++ [file]

/-- The first loop; the number counts the regular files. -/
def chooseFile (config : RestoreConfig) (state : List ManagedSnapshotNode × Nat)
    (file : ManagedSnapshotNode) :
    Except AppError (List ManagedSnapshotNode × Nat) :=
  if config.covers file.path then
    let chosen := setNode state.1 file
    let regularCount := if file.type == .file then state.2 + 1 else state.2
    if regularCount > 1024 || chosen.length > 8192 then .error tooLarge
    else .ok (chosen, regularCount)
  else .ok state

/-- The values of `parent` in the loop from a path to the root: each is shorter than the one
before. -/
def parentsOf (path : String) : List String := Posix.parents path.length path

/-- One turn of the second loop. -/
def chooseParent (index : ManagedSnapshotIndex) (chosen : List ManagedSnapshotNode)
    (parent : String) :
    Except AppError (List ManagedSnapshotNode) :=
  let chosen :=
    match index.get parent with
    | some directory => if directory.type == .dir then setNode chosen directory else chosen
    | none => chosen
  if chosen.length > 8192 then .error tooLarge else .ok chosen

/-- The parents of one chosen file. -/
def chooseParents (index : ManagedSnapshotIndex) (chosen : List ManagedSnapshotNode)
    (file : ManagedSnapshotNode) :
    Except AppError (List ManagedSnapshotNode) :=
  (parentsOf file.path).foldlM (chooseParent index) chosen

/-- The two loops that fill `chosen`. -/
def choose (index : ManagedSnapshotIndex) (config : RestoreConfig) :
    Except AppError (List ManagedSnapshotNode) := do
  let (chosen, _) ← index.nodes.foldlM (chooseFile config) ([], 0)
  chosen.foldlM (chooseParents index) chosen

/-! ## The paths given to the restore -/

/-- The chosen paths above something that is not chosen. -/
def incomplete (index : ManagedSnapshotIndex) (chosen : List ManagedSnapshotNode) : List String :=
  index.nodes.foldl (fun incomplete file =>
    if has chosen file.path then incomplete
    else (parentsOf file.path).foldl (fun incomplete parent =>
      if has chosen parent then addTo incomplete parent else incomplete) incomplete) []

def completeSubtrees (index : ManagedSnapshotIndex) (selected : List ManagedSnapshotNode) :
    List ManagedSnapshotNode :=
  selected.filter fun file => file.type == .dir && ! (incomplete index selected).contains file.path

def selectedIncludes (index : ManagedSnapshotIndex) (selected : List ManagedSnapshotNode) :
    List String :=
  ((completeSubtrees index selected ++ selected.filter fun file =>
    file.type != .dir).filter fun file =>
      !(completeSubtrees index selected).any fun parent =>
        parent != file && contains parent.path file.path).map (·.path)

/-- `/[*?[\]]/` -/
def hasWildcard (path : String) : Bool := path.toList.any (['*', '?', '[', ']'].contains ·)

def statsOf (regularFiles : List ManagedSnapshotNode) : RestoreStats :=
  let bytes := (regularFiles.map (·.size)).sum
  ⟨regularFiles.length, regularFiles.length, bytes, bytes⟩

/-- The nodes that no staging directory of the platform can hold. -/
def refusedType (windows : Bool) (type : NodeType) : Bool :=
  ! [NodeType.file, .dir, .symlink].contains type || (windows && type == .symlink)

/-- What is refused of the nodes that were chosen, and what is restored of them. -/
def conclude (windows : Bool) (index : ManagedSnapshotIndex) (selected : List ManagedSnapshotNode) :
    Except AppError Selection := do
  Except.refuseIf (selected.any fun file => refusedType windows file.type) specialNodes
  selected.forM fun file => assertManagedRestorePath file.path windows
  let regularFiles := selected.filter (·.type == .file)
  Except.refuseIf selected.isEmpty nothingSelected
  Except.refuseIf (regularFiles.length > 1024 || selected.any fun file =>
    hasWildcard file.path) tooLargeOrWildcard
  let includes := selectedIncludes index selected
  Except.refuseIf includes.isEmpty notRestorable
  Except.refuseIf (includes.length > 1024) tooLarge
  return ⟨selected, includes, false, statsOf regularFiles⟩

/-- `index.assertExportEntries('full', true)` -/
def assertExportEntries (windows : Bool) (index : ManagedSnapshotIndex) : Except AppError Unit := do
  Except.refuseIf (index.nodes.any fun file =>
    ! [NodeType.file, .dir, .symlink].contains file.type) unsupportedNodeType
  if windows then
    Except.refuseIf (index.nodes.any (·.type == .symlink)) posixRestoreRequired
    index.nodes.forM fun file => assertManagedRestorePath file.path windows

/-- Everything is selected. -/
def selectFull (windows : Bool) (index : ManagedSnapshotIndex) : Except AppError Selection := do
  assertExportEntries windows index
  Except.refuseIf index.nodes.isEmpty nothingSelected
  return ⟨index.nodes, [], true, statsOf (index.nodes.filter (·.type == .file))⟩

def select (windows : Bool) (index : ManagedSnapshotIndex) (config : RestoreConfig) :
    Except AppError Selection := do
  Except.refuseIf ((config.includes ++ config.excludes).any fun selected =>
    (index.get selected).isNone) notFound
  if config.includes.isEmpty && config.excludes.isEmpty then selectFull windows index
  else do
    let selected ← choose index config
    conclude windows index selected

end Pluton.Restore.Server
