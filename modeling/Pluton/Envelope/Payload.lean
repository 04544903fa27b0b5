-- SUMMARY: The agent's parser of the payload of a backup command.
import Pluton.Envelope.Exclusions
import Pluton.Lifecycle.Policy

/-!
# The payload as the agent reads it

`parseBackupFilesystemPayload` of `backupFilesystem.ts`: the version decides which
lifecycle is expected and how the exclusions are read, and a field that is not
expected is refused.
-/
namespace Pluton.Envelope

open Except Lifecycle

structure RepositoryConfig where
  path : String
  initializes : Bool

/-- The name of the remote and the type of the storage have one value only. -/
structure BackupFilesystemPayload where
  version : Nat
  lifecycle : Option Agent.BackupLifecycle
  backupId : String
  planId : String
  sourcePath : String
  excludes : List String
  repository : RepositoryConfig
  rclone : List (String × String)
  repositoryPassword : String

def SFTP_OPTION_KEYS : List String := ["host", "port", "user", "pass"]

def asRecord (value : Option Json) (label : String) : Except String Json.Fields :=
  match value with
  | some (.obj fields) => .ok fields
  | _ => .error (label ++ " must be an object.")

def requiredString (value : Option Json) (label : String) (max : Nat) : Except String String :=
  match value with
  | some (.str text) =>
      if text.isEmpty || max < Js.length text || unsafeControls text then
        .error (label ++ " is invalid.")
      else .ok text
  | _ => .error (label ++ " is invalid.")

def validateId (value : Option Json) (label : String) : Except String String := do
  let id ← requiredString value label 160
  refuseIf (!Pattern.all Pattern.dashed id) (label ++ " is invalid.")
  return id

/-- `text.split(/[\\/]+/).includes("..")`. Several separators in a row and one alone
leave the same components, apart from empty ones. -/
def hasTraversal (text : String) : Bool :=
  (text.toList.splitOnP fun ch => ch == '\\' || ch == '/').contains ['.', '.']

def validateRepositoryPath (value : Option Json) : Except String String := do
  let repositoryPath ← requiredString value "Repository path" 8192
  refuseIf (hasTraversal repositoryPath) "Repository path contains traversal."
  return repositoryPath

def validateExclude (entry : Json × Nat) : Except String String := do
  let item ← requiredString (some entry.1) ("Backup exclude " ++ toString (entry.2 + 1)) 4096
  refuseIf (hasTraversal item) "Backup excludes cannot contain traversal."
  return item

def validateExcludes (value : Option Json) : Except String (List String) := do
  let items ← Agent.array value 100 "Backup excludes are invalid."
  items.zipIdx.mapM validateExclude

def validateOption (entry : String × Json) : Except String (String × String) := do
  refuseIf (!SFTP_OPTION_KEYS.contains entry.1) "SFTP configuration contains an unsupported option."
  let item ← requiredString (some entry.2) ("SFTP option " ++ entry.1) 16384
  return (entry.1, item)

/-- `!options[key]` -/
def lacks (options : List (String × String)) (key : String) : Bool :=
  (options.lookup key).all String.isEmpty

def validateRcloneOptions (value : Option Json) : Except String (List (String × String)) := do
  let input ← asRecord value "SFTP configuration"
  let result ← input.mapM validateOption
  refuseIf (lacks result "host" || lacks result "user" || lacks result "pass")
    "SFTP host, user, and password are required."
  return result

/-- The version, when it is one of those listed. -/
def versionAmong (listed : List Nat) (value : Json.Fields) : Option Nat :=
  listed.find? fun n => Json.isNat n (Json.field value "version")

def payloadKeys (value : Json.Fields) : List String :=
  ["version", "backupId", "planId", "sourcePath", "excludes", "repository", "rclone",
    "repositoryPassword"] ++
    if (versionAmong [2, 3, 4] value).isSome then ["lifecycle"] else []

def payloadVersion (value : Json.Fields) : Except String Nat :=
  match versionAmong [1, 2, 3, 4] value with
  | some version => .ok version
  | none => .error "Backup command version is unsupported."

def readInitializes (repository : Json.Fields) : Except String Bool :=
  match Json.isStr "pluton" (Json.field repository "remoteName"),
    Json.field repository "initialize" with
  | true, some (.bool initializes) => .ok initializes
  | _, _ => .error "Repository configuration is invalid."

/-- The lifecycle, unless the version has none. -/
def readLifecycle (fold : String → String) (version : Nat) (value : Json.Fields) :
    Except String (Option Agent.BackupLifecycle) :=
  if version == 1 || (version == 4 && (Json.field value "lifecycle").isNone) then .ok none
  else (Agent.parseBackupLifecycle fold (Json.field value "lifecycle")).map some

/-- The lifecycle version does not go with the payload's. -/
def incompatible (version : Nat) (lifecycle : Option Agent.BackupLifecycle) : Bool :=
  lifecycle.any fun held => version != 4 && (held.isSingle == (version == 3))

def readExcludes (letter : Char → Bool) (version : Nat) (value : Option Json) :
    Except String (List String) :=
  if version == 4 then parseBackupExclusions letter value else validateExcludes value

def parseBackupFilesystemPayload (fold : String → String) (letter : Char → Bool)
    (value : Json.Fields) : Except String BackupFilesystemPayload :=
  do
  refuseIf (Json.hasOther (payloadKeys value) value) "Backup command contains unsupported fields."
  let version ← payloadVersion value
  let repository ← asRecord (Json.field value "repository") "Repository configuration"
  let rclone ← asRecord (Json.field value "rclone") "Rclone configuration"
  let initializes ← readInitializes repository
  refuseIf (!Json.isStr "sftp" (Json.field rclone "type"))
    "Only SFTP storage is supported by this agent."
  let repositoryPassword ← requiredString (Json.field value "repositoryPassword")
      "Repository password" 512
  refuseIf (decide (Js.length repositoryPassword < 20)) "Repository password is invalid."
  let lifecycle ← readLifecycle fold version value
  refuseIf (incompatible version lifecycle) "Incompatible lifecycle envelope."
  let backupId ← validateId (Json.field value "backupId") "Backup ID"
  let planId ← validateId (Json.field value "planId") "Plan ID"
  let sourcePath ← requiredString (Json.field value "sourcePath") "Source path" 4096
  let excludes ← readExcludes letter version (Json.field value "excludes")
  let path ← validateRepositoryPath (Json.field repository "path")
  let options ← validateRcloneOptions (Json.field rclone "options")
  return { version, lifecycle, backupId, planId, sourcePath, excludes
           repository := { path, initializes }
           rclone := options
           repositoryPassword }

end Pluton.Envelope
