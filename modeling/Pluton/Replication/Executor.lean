-- SUMMARY: The executor that copies a snapshot into a replica, over any outcomes of commands.
import Pluton.Effect
import Pluton.Ends
import Pluton.Json
import Pluton.Pattern
import Pluton.Namespaces.Stores

/-!
# The replication executor

`ManagedReplicationExecutor.ts`. Every command of `restic` and `rclone` is answered by
the environment, which knows the whole history of the call; so are the two callbacks
that write to the store. The state of the program is that history.
-/
namespace Pluton.Replication.Executor

open EStateM
open Namespaces (fullId)

/-! ## Data -/

structure ReplicationSnapshot where
  id : String
  tree : String
  tags : List String
  paths : List String
  original : Option String
  deriving DecidableEq

structure SftpAccess where
  options : List (String × String)
  repositoryPath : String
  password : String

structure Artifact where
  path : String
  bytes : Nat
  sha256 : String

structure ReplicationSource where
  access : SftpAccess
  planId : String
  backupId : String
  snapshotId : String
  artifacts : List Artifact

structure ReplicationDestinationAccess where
  options : List (String × String)
  repositoryPath : String
  environment : List (String × String)

structure ReplicationSourceProof where
  repositoryConfigId : String
  snapshot : ReplicationSnapshot
  deriving DecidableEq

inductive Initialization where
  | uninitialized
  | initializing
  | ready
  | uncertain
  deriving DecidableEq

structure ReplicationDestinationState where
  repositoryConfigId : Option String
  initialization : Initialization

structure CopyInput where
  source : ReplicationSource
  proof : ReplicationSourceProof
  destination : ReplicationDestinationAccess
  state : ReplicationDestinationState

structure Copied where
  snapshotId : String
  repositoryConfigId : String

/-- A `ManagedReplicationError`: its code. -/
abbrev Failure := String

/-! ## Commands -/

inductive Remote where
  | source
  | destination

inductive Command where
  | obscure
  | lsf (repositoryPath : String)
  | catConfig (remote : Remote) (repositoryPath : String)
  | snapshots (remote : Remote) (repositoryPath : String) (selection : List String)
  | init (repositoryPath sourcePath : String)
  | copy (repositoryPath sourcePath snapshotId : String)
  | dump (remote : Remote) (repositoryPath snapshotId file : String)

/-- What a command answers: its trimmed output. A dump is counted and hashed as it arrives. -/
structure Output where
  text : String
  bytes : Nat
  sha256 : String

/-- What the call did. A command that is refused before it is spawned counts too. -/
inductive Act where
  | ran (command : Command) (outcome : Except Failure Output)
  | began (outcome : Except Failure Unit)
  | bound (repositoryId : String) (outcome : Except Failure Unit)

/-- The answers, which may depend on all that happened, and `JSON.parse`. -/
structure Env where
  answer : List Act → Command → Except Failure Output
  beginInitialization : List Act → Except Failure Unit
  bindRepository : List Act → String → Except Failure Unit
  parseJson : String → Option Json

abbrev Exec (α : Type) := EStateM Failure (List Act) α

/-- The answer to the call in hand is noted before it is used. -/
def record {α : Type} (answer : List Act → Except Failure α) (act : Except Failure α → Act) :
    Exec α := do
  let log ← get
  let outcome := answer log
  set (log ++ [act outcome])
  MonadExcept.ofExcept outcome

variable (env : Env)

def command (cmd : Command) : Exec Output := record (fun log => env.answer log cmd) (.ran cmd)

def beginInitialization : Exec Unit := record env.beginInitialization .began

def bindRepository (repositoryId : String) : Exec Unit :=
  record (fun log => env.bindRepository log repositoryId) (.bound repositoryId)

/-! ## Outputs -/

def readId (value : Option Json) : Option String :=
  match value with
  | some (.str text) => if fullId text then some text else none
  | _ => none

def configSchema : Json → Option String
  | .obj fields => readId (Json.field fields "id")
  | _ => none

def readTexts : Option Json → Option (List String)
  | some (.arr items) => items.mapM fun
      | .str text => some text
      | _ => none
  | _ => none

def readOriginal (value : Option Json) : Option (Option String) :=
  match value with
  | none => some none
  | some held => (readId (some held)).map some

def snapshotSchema : Json → Option ReplicationSnapshot
  | .obj fields => do
      let id ← readId (Json.field fields "id")
      let tree ← readId (Json.field fields "tree")
      let tags ← readTexts (Json.field fields "tags")
      let paths ← readTexts (Json.field fields "paths")
      let original ← readOriginal (Json.field fields "original")
      return { id, tree, tags, paths, original }
  | _ => none

def snapshotsSchema : Json → Option (List ReplicationSnapshot)
  | .arr items => items.mapM snapshotSchema
  | _ => none

def parseOption {α : Type} (schema : Json → Option α) (output : Output) : Option α :=
  (env.parseJson output.text).bind schema

def parse {α : Type} (schema : Json → Option α) (output : Output) : Exec α :=
  match parseOption env schema output with
  | some value => pure value
  | none => throw "invalid-output"

/-! ## Checks -/

def word (text : String) : Bool := !text.isEmpty && Pattern.all Pattern.dashed text

/-- `/^\/pluton\/database\/[A-Za-z0-9_.-]+\.sql$/` -/
def artifactPath (path : String) : Bool :=
  Js.startsWith "/pluton/database/" path && Js.endsWith ".sql" path &&
    22 ≤ path.toList.length && (path.toList.drop 17).all Pattern.dotted

def assertSource (source : ReplicationSource) : Exec Unit := do
  refuseIf (!fullId source.snapshotId || !word source.planId || !word source.backupId)
    "source-binding-invalid"
  refuseIf (source.artifacts.any fun artifact => !artifactPath artifact.path ||
      Js.maxSafeInteger < artifact.bytes || artifact.bytes == 0 || !fullId artifact.sha256)
    "artifact-binding-invalid"

def planTag (source : ReplicationSource) : String := "pluton-plan-" ++ source.planId

def backupTag (source : ReplicationSource) : String := "pluton-backup-" ++ source.backupId

/-- The snapshot has one plan tag and one backup tag, those of the source. -/
def boundTags (source : ReplicationSource) (snapshot : ReplicationSnapshot) : Bool :=
  snapshot.tags.filter (Js.startsWith "pluton-plan-") == [planTag source] &&
    snapshot.tags.filter (Js.startsWith "pluton-backup-") == [backupTag source]

def assertSnapshot (source : ReplicationSource) (snapshot : ReplicationSnapshot) (exact : Bool) :
    Exec Unit :=
  refuseIf ((exact && snapshot.id != source.snapshotId) || !boundTags source snapshot)
    "snapshot-binding-mismatch"

def hasControlCharacters (value : String) : Bool :=
  value.toList.any fun ch => ch.toNat < 32 || ch.toNat == 127

def unsafePath (path : String) : Bool :=
  path.isEmpty || Js.includes '\\' path || (Js.split '/' path).contains ".." ||
    hasControlCharacters path

def lacksOption (options : List (String × String)) (key : String) : Bool :=
  (options.lookup key).all String.isEmpty

def invalidAccess (access : SftpAccess) : Bool :=
  access.password.isEmpty || unsafePath access.repositoryPath ||
    access.options.any (fun option => hasControlCharacters option.2 ||
      ! ["host", "port", "user", "pass"].contains option.1) ||
    lacksOption access.options "host" || lacksOption access.options "user" ||
    lacksOption access.options "pass"

def invalidDestination (destination : ReplicationDestinationAccess) : Bool :=
  unsafePath destination.repositoryPath || destination.options.lookup "type" != some "s3" ||
    destination.options.any (fun option => option.1.isEmpty ||
      !Pattern.all (fun ch => ch.isLower || ch.isDigit || ch == '_') option.1 ||
      hasControlCharacters option.2) ||
    destination.environment.any fun entry =>
      ! ["SSL_CERT_FILE", "RCLONE_CA_CERT"].contains entry.1 || !Js.startsWith "/" entry.2

/-- The environment of the commands; only its checks and its one command matter here. -/
def environment (source : SftpAccess) (destination : Option ReplicationDestinationAccess) :
    Exec Unit := do
  refuseIf (invalidAccess source) "source-configuration-invalid"
  let obscured ← command env .obscure
  refuseIf (!word (Js.trim obscured.text)) "credentials-unavailable"
  refuseIf (destination.any invalidDestination) "destination-configuration-invalid"

/-! ## The operations -/

def verifyArtifact (remote : Remote) (repository snapshot : String) (artifact : Artifact) :
    Exec Unit := do
  let dumped ← command env (.dump remote repository snapshot artifact.path)
  refuseIf (decide (artifact.bytes < dumped.bytes)) "artifact-size-mismatch"
  refuseIf (dumped.bytes != artifact.bytes || dumped.sha256 != artifact.sha256)
    "artifact-checksum-mismatch"

def verifyArtifacts (source : ReplicationSource) (remote : Remote) (repository snapshot : String) :
    Exec Unit :=
  source.artifacts.forM (verifyArtifact env remote repository snapshot)

def readConfig (remote : Remote) (repository : String) : Exec String := do
  let output ← command env (.catConfig remote repository)
  parse env configSchema output

def theSnapshot (source : ReplicationSource) (rows : List ReplicationSnapshot) :
    Exec ReplicationSnapshot :=
  match rows with
  | [row] => if row.id == source.snapshotId then pure row else throw "snapshot-unavailable"
  | _ => throw "snapshot-unavailable"

def inspectSource (source : ReplicationSource) : Exec ReplicationSourceProof := do
  assertSource source
  environment env source.access none
  let repositoryConfigId ← readConfig env .source source.access.repositoryPath
  let output ← command env (.snapshots .source source.access.repositoryPath [source.snapshotId])
  let rows ← parse env snapshotsSchema output
  let snapshot ← theSnapshot source rows
  assertSnapshot source snapshot true
  verifyArtifacts env source .source source.access.repositoryPath source.snapshotId
  return { repositoryConfigId, snapshot }

/-- A repository that is not there is created, in an empty place and after the store has
said so. -/
def createRepository (input : CopyInput) : Exec String := do
  let destination := input.destination.repositoryPath
  let listing ← command env (.lsf destination)
  refuseIf (!(Js.trim listing.text).isEmpty) "destination-not-empty"
  beginInitialization env
  let _ ← command env (.init destination input.source.access.repositoryPath)
  let repositoryConfigId ← readConfig env .destination destination
  bindRepository env repositoryConfigId
  return repositoryConfigId

/-- Whether a failed probe means that there is no repository yet. -/
def mayInitialize (state : ReplicationDestinationState) (failure : Failure) : Bool :=
  failure == "repository-unavailable" && state.initialization == .uninitialized &&
    state.repositoryConfigId.all String.isEmpty

/-- The id of the destination, and whether `init` ran in this call. -/
def probe (input : CopyInput) : Exec (String × Bool) := do
  match ← observe (readConfig env .destination input.destination.repositoryPath) with
  | .ok repositoryConfigId => return (repositoryConfigId, false)
  | .error failure => do
      refuseIf (!mayInitialize input.state failure) failure
      let repositoryConfigId ← createRepository env input
      return (repositoryConfigId, true)

def assertState (input : CopyInput) : Exec Unit := do
  refuseIf (!fullId input.proof.repositoryConfigId || !fullId input.proof.snapshot.tree)
    "source-binding-changed"
  refuseIf (input.state.initialization == .initializing || input.state.initialization == .uncertain)
    "initialization-uncertain"
  refuseIf (input.state.initialization == .ready &&
    !fullId (input.state.repositoryConfigId.getD ""))
    "destination-unowned"

/-- Snapshots that are the source's or a copy of it. -/
def isCopy (input : CopyInput) (snapshot : ReplicationSnapshot) : Bool :=
  (snapshot.id == input.source.snapshotId || snapshot.original == some input.source.snapshotId) &&
    snapshot.tree == input.proof.snapshot.tree && snapshot.paths.isPerm input.proof.snapshot.paths

def theCopy (input : CopyInput) (copies : List ReplicationSnapshot) : Exec ReplicationSnapshot :=
  match copies.filter (isCopy input) with
  | [snapshot] => pure snapshot
  | _ => throw "destination-snapshot-unverified"

def selection (source : ReplicationSource) : List String :=
  ["--tag", planTag source, "--tag", backupTag source]

def copy (input : CopyInput) : Exec Copied := do
  let destination := input.destination.repositoryPath
  assertSource input.source
  assertSnapshot input.source input.proof.snapshot true
  assertState input
  environment env input.source.access (some input.destination)
  let actualSource ← inspectSource env input.source
  refuseIf (actualSource != input.proof) "source-binding-changed"
  let (repositoryConfigId, initializedInThisCall) ← probe env input
  refuseIf (input.state.repositoryConfigId != some repositoryConfigId &&
    input.state.repositoryConfigId.isSome)
    "destination-binding-changed"
  refuseIf (input.state.initialization == .uninitialized && input.state.repositoryConfigId.isNone &&
    !initializedInThisCall) "destination-unowned"
  let _ ← command env (.copy destination input.source.access.repositoryPath input.source.snapshotId)
  let output ← command env (.snapshots .destination destination (selection input.source))
  let copies ← parse env snapshotsSchema output
  let snapshot ← theCopy input copies
  assertSnapshot input.source snapshot false
  verifyArtifacts env input.source .destination destination snapshot.id
  return { snapshotId := snapshot.id, repositoryConfigId }

end Pluton.Replication.Executor
