-- SUMMARY: The server's assembly of the payload of a backup command.
import Pluton.Envelope.Payload
import Pluton.Envelope.Records
import Pluton.Lifecycle.Encoding

/-!
# Materialising a command

`RemoteBackupService.materializeCommand` and what it calls. Nothing is stored: each
poll loads the records of the plan, checks them again and puts the secrets back. A
refusal keeps the stage it happened in.
-/
namespace Pluton.Envelope

open Except Lifecycle

/-! ## Refusals -/

inductive Stage where
  | commandOwnership
  | commandReference
  | managedPlanConsistency
  | repositoryAgent
  | repositoryMetadata
  | planShape
  | sourceValidation
  | repositoryPath
  | agentCapability
  | sftpStorageLookup
  | sftpCredentialDecryption
  | sftpSettingAllowlist
  | sftpOptionValidation
  | sftpRequiredCredentials
  | repositorySecretDecryption
  | lifecycleConfiguration
  | databaseCredentialPreparation

inductive RuleCategory where
  | unsupportedField
  | unsafeControlCharacter
  | valueTooLong

/-- What `setStage` recorded, and the message of the error. -/
structure Refusal where
  stage : Stage
  rejectedField : Option String
  ruleCategory : Option RuleCategory
  message : String

structure RemoteCommandPreparationError where
  refusal : Refusal
  backupId : Option String
  planId : Option String
  storageId : Option String

def during {α : Type} (stage : Stage) (x : Except AppError α) : Except Refusal α :=
  x.mapError fun e => ⟨stage, none, none, e.message⟩

/-! ## Checks -/

/-- `value.trim().length > 0` -/
def isNonEmptyString (value : String) : Bool := !(Js.trim value).isEmpty

structure CommandReference where
  backupId : String
  planId : String
  repositoryId : String

structure AgentCommand where
  agentId : String
  type : String
  payload : Json.Fields

def referenceField (payload : Json.Fields) (key : String) : Except AppError String :=
  match Json.field payload key with
  | some (.str text) =>
      if isNonEmptyString text then .ok text
        else .error ⟨400, "Remote backup command payload is invalid."⟩
  | _ => .error ⟨400, "Remote backup command payload is invalid."⟩

def commandReference (payload : Json.Fields) : Except AppError CommandReference := do
  let backupId ← referenceField payload "backupId"
  let planId ← referenceField payload "planId"
  let repositoryId ← referenceField payload "repositoryId"
  refuseIf (Json.hasOther ["backupId", "planId", "repositoryId"] payload)
    ⟨400, "Remote backup command payload is invalid."⟩
  return { backupId, planId, repositoryId }

def MAX_SOURCE_PATH_LENGTH : Nat := 4096

def validateAbsoluteLinuxPath (value : String) : Except AppError Unit :=
  refuseIf (value.isEmpty || MAX_SOURCE_PATH_LENGTH < Js.length value || !Js.startsWith "/" value ||
      unsafeControls value || hasTraversal value)
    ⟨400, "Remote backup source must be one safe absolute Linux path."⟩

def validateStoragePath (value : String) : Except AppError Unit := do
  refuseIf (value.isEmpty || MAX_SOURCE_PATH_LENGTH < Js.length value || unsafeControls value)
    ⟨400, "Remote backup destination path is invalid."⟩
  refuseIf (hasTraversal value) ⟨400, "Remote backup destination path cannot contain traversal."⟩

def getSingleSource (sourceConfig : PlanSource) : Except AppError String :=
  match sourceConfig.includes with
  | [only] => do
      let source := Js.trim only
      validateAbsoluteLinuxPath source
      return source
  | _ => .error ⟨400, "Remote filesystem backup requires exactly one source path."⟩

/-- The patterns can be anchored at the source. -/
def anchorable (letter : Char → Bool) (sourceConfig : PlanSource) (patterns : List String) :
    Except String Unit :=
  if patterns.isEmpty then .ok ()
  else do
    let source ← (getSingleSource sourceConfig).mapError AppError.message
    let _ ← sourceResticExclusions letter source patterns

def safeExcludes (letter : Char → Bool) (sourceConfig : PlanSource) : Except String (List String) :=
  do
  let patterns ← parseBackupExclusions letter (some (Json.texts (sourceConfig.excludes.getD [])))
  anchorable letter sourceConfig patterns
  return patterns

def getSafeExcludes (letter : Char → Bool) (sourceConfig : PlanSource) :
    Except AppError (List String) :=
  (safeExcludes letter sourceConfig).mapError fun message => ⟨400, message⟩

/-- The exclusions are those the backup was queued with. -/
def assertReceipt (letter : Char → Bool) (plan : Plan) (backup : Backup) (excludes : List String) :
    Except AppError Unit :=
  let changed : AppError :=
    ⟨409, "Backup source or exclusions changed after queuing. Start a new backup."⟩
  if excludes.isEmpty && ((backup.sourceConfig.bind PlanSource.excludes).getD []).isEmpty then
    .ok ()
  else
    match backup.sourceConfig with
    | none => .error changed
    | some queued => do
        refuseIf (queued.includes != plan.sourceConfig.includes) changed
        let recorded ← getSafeExcludes letter queued
        refuseIf (recorded != excludes) changed

/-! ## Stores and services -/

structure SourceAccessService where
  assertModeChangeIdle : String → Except AppError Unit
  assertPlanSource : AgentIdentity → String → Except AppError Unit

structure Server (cryptr : Cryptr) where
  repositoryById : String → Option (ManagedRepository cryptr)
  planById : String → Option Plan
  backupById : String → Option Backup
  storageById : String → Option Storage
  agentByDeviceId : String → Option AgentIdentity
  databaseCredential : String → Option String
  databaseCredentials : String → List DatabaseCredential
  validateReplicas : Option (Plan → Except AppError Unit)
  sourceAccess : Option SourceAccessService
  now : Nat
  offlineTimeoutMs : Nat

section

variable {cryptr : Cryptr} (server : Server cryptr) (fold : String → String) (letter : Char → Bool)

def capable (agent : AgentIdentity) : Bool :=
  agent.capabilities.filesystemRootsConfigured &&
    agent.capabilities.commandTypes.contains "BACKUP_FILESYSTEM" &&
    agent.resticVersion.any isNonEmptyString && agent.rcloneVersion.any isNonEmptyString &&
    versionAtLeast agent.agentVersion

def offline (agent : AgentIdentity) : Bool :=
  agent.revokedAt.isSome || agent.lastSeen.all fun seen =>
    decide (server.offlineTimeoutMs + seen < server.now)

def getCapableAgent (deviceId : String) : Except AppError AgentIdentity :=
  match server.agentByDeviceId deviceId with
  | none => .error ⟨409, "Remote agent is not available."⟩
  | some agent => do
      refuseIf (offline server agent) ⟨409, "Remote agent is not available."⟩
      refuseIf (!capable agent) ⟨409, "Remote agent does not yet support filesystem backup."⟩
      return agent

/-! ## The plan -/

def isRemoteFilesystemPlan (plan : Plan) : Bool :=
  plan.sourceType == "device" && plan.sourceId != "main"

def assertShape (plan : Plan) (validateReplicaConfiguration : Bool) : Except AppError Unit := do
  refuseIf (!isRemoteFilesystemPlan plan || plan.method != "backup")
    ⟨400, "Only remote filesystem incremental backup is available."⟩
  refuseIf (!plan.encryption) ⟨400,
    "Remote filesystem backups require their managed repository password."⟩
  refuseIf (plan.scripts.any fun scripts => !scripts.2.isEmpty)
    ⟨400, "Scripts are not available for remote filesystem backups."⟩
  match plan.replication.any Replication.enabled, server.validateReplicas with
  | true, none => .error ⟨503, "Managed replication executor is not configured."⟩
  | true, some validatePlan => if validateReplicaConfiguration then validatePlan plan else .ok ()
  | false, _ => .ok ()
  refuseIf (plan.replication.any fun replication => decide (2 < replication.storages.length))
    ⟨400, "Managed Agent plans support at most two replica destinations."⟩

/-- The agent cannot run the lifecycle. -/
def unsupported (capabilities : Capabilities) (lifecycle : RemoteLifecycle) : Bool :=
  let databases := lifecycleDatabases lifecycle
  let version := capabilities.backupLifecycleVersion.getD 0
  ! [1, 2].contains version ||
    (version == 1 &&
      (decide (1 < databases.length) || databases.any fun db => db.engine == .postgresql)) ||
    databases.any (fun db => !capabilities.databaseEngines.any fun engines =>
      engines.contains db.engine.name) ||
    (!lifecycle.hooks.isEmpty && capabilities.hooksConfigured != some true)

def assertLifecycle (plan : Plan) (value : RemoteLifecycle) : Except AppError Unit := do
  let lifecycle ← parseRemoteLifecycle fold value
  refuseIf ((lifecycleDatabases lifecycle).any fun db => db.password.isSome)
    ⟨400, "Database password cannot be stored in plan settings."⟩
  let agent ← getCapableAgent server plan.sourceId
  refuseIf (unsupported agent.capabilities lifecycle)
    ⟨409, "Remote agent does not support the selected database lifecycle or hooks. " ++
      "Update the agent and install the required dump client/hooks first."⟩

def assertIdle (agent : AgentIdentity) : Except AppError Unit :=
  match server.sourceAccess with
  | none => .ok ()
  | some service => service.assertModeChangeIdle agent.agentId

def assertSource (agent : AgentIdentity) (source : String) : Except AppError Unit :=
  if agent.capabilities.sourceAccessVersion == some 1 then
    match server.sourceAccess with
    | none => .error ⟨409, "Source Access validation is unavailable."⟩
    | some service => service.assertPlanSource agent source
  else .ok ()

def sftpStorage (storageId : String) : Except AppError Storage :=
  match server.storageById storageId with
  | none => .error ⟨400, "Remote filesystem backups currently require an SFTP destination."⟩
  | some storage => do
      refuseIf (storage.type != "sftp")
        ⟨400, "Remote filesystem backups currently require an SFTP destination."⟩
      return storage

def assertSupportedPlan (plan : Plan) (validateReplicaConfiguration : Bool) : Except Refusal Unit :=
  do
  during .planShape (assertShape server plan validateReplicaConfiguration)
  let source ← during .sourceValidation (getSingleSource plan.sourceConfig)
  let excludes ← during .sourceValidation (getSafeExcludes letter plan.sourceConfig)
  during .repositoryPath (validateStoragePath (plan.storagePath.getD ""))
  let agent ← during .agentCapability (getCapableAgent server plan.sourceId)
  during .agentCapability (refuseIf (!excludes.isEmpty &&
    agent.capabilities.backupExclusionsVersion != some 1)
    ⟨409, "Update the Agent before using Backup Exclusions (capability v1 required)."⟩)
  during .agentCapability (assertIdle server agent)
  during .sourceValidation (assertSource server agent source)
  during .lifecycleConfiguration (match plan.remoteLifecycle with
    | none => .ok ()
    | some lifecycle => assertLifecycle server fold plan lifecycle)
  let _ ← during .sftpStorageLookup (sftpStorage server plan.storageId)

/-! ## Storage options -/

def SFTP_AGENT_OPTION_KEYS : List String := ["host", "port", "user", "pass"]

def isMeaningfulStorageValue : StorageValue → Bool
  | .text value => isNonEmptyString value
  | .number _ zero _ => !zero
  | .bool value => value
  | .other => false

/-- `String(value)` of a value that means something. -/
def StorageValue.printed : StorageValue → String
  | .text value => value
  | .number printed _ _ => printed
  | .bool value => toString value
  | .other => ""

/-- `.replace(/\r?\n/g, '\\n')` -/
def escapeLines : List Char → List Char
  | '\r' :: '\n' :: rest => '\\' :: 'n' :: escapeLines rest
  | '\n' :: rest => '\\' :: 'n' :: escapeLines rest
  | ch :: rest => ch :: escapeLines rest
  | [] => []

def decryptCredential (entry : String × StorageValue) : Except AppError (String × StorageValue) :=
  let unprepared : AppError :=
    ⟨500, "Storage credentials could not be prepared for the remote agent."⟩
  match SFTP_AGENT_OPTION_KEYS.contains entry.1, entry.2 with
  | true, .text value =>
      match cryptr.decrypt value with
      | some plain => .ok (entry.1, .text plain)
      | none => .error unprepared
  | _, _ => .error unprepared

def assertSetting (entry : String × StorageValue) : Except Refusal Unit :=
  refuseIf (isMeaningfulStorageValue entry.2 &&
    (!SFTP_AGENT_OPTION_KEYS.contains entry.1 || entry.1 == "pass"))
    ⟨.sftpSettingAllowlist, some entry.1, some .unsupportedField,
      "Remote filesystem backups support only SFTP host, port, username, and encrypted password credentials."⟩

def sftpOption (entry : String × StorageValue) : Except Refusal (String × String) := do
  let normalized := String.ofList (escapeLines entry.2.printed.toList)
  refuseIf (!SFTP_AGENT_OPTION_KEYS.contains entry.1)
    ⟨.sftpOptionValidation, some entry.1, some .unsupportedField,
      "Remote filesystem backup SFTP configuration is unsupported."⟩
  refuseIf (decide (16384 < Js.length normalized))
    ⟨.sftpOptionValidation, some entry.1, some .valueTooLong,
      "SFTP configuration contains an unsafe value."⟩
  refuseIf (unsafeControls normalized)
    ⟨.sftpOptionValidation, some entry.1, some .unsafeControlCharacter,
      "SFTP configuration contains an unsafe value."⟩
  return (entry.1, normalized)

/-- The options of the storage: its settings, overwritten by its credentials. -/
def materializeSftpStorage (storageId : String) : Except Refusal (List (String × String)) := do
  let storage ← during .sftpStorageLookup (sftpStorage server storageId)
  let decrypted ← during .sftpCredentialDecryption
    (storage.credentials.mapM fun entry => @decryptCredential cryptr entry)
  storage.settings.forM assertSetting
  let merged := decrypted.foldl (fun held entry => Js.mapSet held entry.1 entry.2) storage.settings
  let options ← (merged.filter fun entry => isMeaningfulStorageValue entry.2).mapM sftpOption
  during .sftpRequiredCredentials (refuseIf (lacks options "host" || lacks options "user" ||
    lacks options "pass")
    ⟨400, "Remote filesystem backups require SFTP host, username, and password credentials."⟩)
  return options

/-! ## The lifecycle -/

def materializedLifecycle (plan : Plan) (value : RemoteLifecycle) :
    Except AppError RemoteLifecycle :=
  match value with
  | .single database _ =>
      materializeRemoteLifecycle fold cryptr value
        (if database.isSome then server.databaseCredential plan.id.text else none)
  | .collection _ _ =>
      materializeRemoteLifecycleCollection fold cryptr value
        (server.databaseCredentials plan.id.text)

/-- The form for an agent that knows version 1 only. -/
def downgraded (lifecycle : RemoteLifecycle) : Except AppError RemoteLifecycle :=
  parseRemoteLifecycle fold
    (.single ((lifecycleDatabases lifecycle).head?.map fun db =>
      { db with databaseId := none }) lifecycle.hooks)

def legacyAgent (agent : AgentIdentity) : Bool :=
  agent.capabilities.backupLifecycleVersion == some 1

def sentLifecycle (plan : Plan) (agent : AgentIdentity) :
    Except AppError (Option RemoteLifecycle) :=
  match plan.remoteLifecycle with
  | none => .ok none
  | some value => do
      let lifecycle ← materializedLifecycle server fold plan value
      if legacyAgent agent then (downgraded fold lifecycle).map some else .ok (some lifecycle)

/-! ## The payload -/

def envelopeVersion (excludes : List String) (lifecycle : Option RemoteLifecycle) : Nat :=
  if !excludes.isEmpty then 4
  else
    match lifecycle with
    | none => 1
    | some held => if held.isSingle then 2 else 3

def toObject (options : List (String × String)) : Json :=
  .obj (options.map fun entry => (entry.1, .str entry.2))

/-- The records of the command. -/
structure ManagedRecords (cryptr : Cryptr) where
  repository : ManagedRepository cryptr
  plan : Plan
  backup : Backup

/-- What is put into the payload. -/
structure Materials where
  agent : AgentIdentity
  lifecycle : Option RemoteLifecycle
  sourcePath : String
  excludes : List String
  rclone : List (String × String)
  repositoryPassword : String

def payloadOf (records : ManagedRecords cryptr) (materials : Materials) : Json.Fields :=
  ("version", .nat (envelopeVersion materials.excludes materials.lifecycle)) ::
    Json.optional "sourceDiagnosticsVersion"
      (if supportsSourceDiagnostics materials.agent.agentVersion then some (.nat 1) else none) ++
    Json.optional "lifecycle" (materials.lifecycle.map RemoteLifecycle.toJson) ++
    [("backupId", .str records.backup.id.text), ("planId", .str records.plan.id.text),
      ("sourcePath", .str materials.sourcePath), ("excludes", Json.texts materials.excludes),
      ("repository", .obj [("remoteName", .str "pluton"),
        ("path", .str records.repository.storagePath),
        ("initialize", .bool records.repository.initializedAt.isNone)]),
      ("rclone", .obj [("type", .str "sftp"), ("options", toObject materials.rclone)]),
      ("repositoryPassword", .str materials.repositoryPassword)]

def readReference (agentId : String) (command : AgentCommand) : Except Refusal CommandReference :=
  do
  during .commandOwnership
    (refuseIf (command.agentId != agentId) ⟨403, "Command does not belong to this agent."⟩)
  during .commandReference (commandReference command.payload)

def loadRecords (reference : CommandReference) : Except Refusal (ManagedRecords cryptr) :=
  let stale : Refusal :=
    ⟨.managedPlanConsistency, none, none,
      "Remote backup command no longer has a valid managed plan."⟩
  match server.repositoryById reference.repositoryId, server.planById reference.planId,
      server.backupById reference.backupId with
  | some repository, some plan, some backup => do
      refuseIf (backup.planId != plan.id.text || repository.planId != plan.id.text ||
        !backup.inProgress ||
        backup.status == "cancelled" || backup.sourceId != plan.sourceId) stale
      return { repository, plan, backup }
  | _, _, _ => .error stale

def decryptRepositoryPassword (encrypted : String) : Except AppError String :=
  match cryptr.decrypt encrypted with
  | some password => .ok password
  | none => .error ⟨500, "Remote repository credentials could not be prepared."⟩

def prepareMaterials (agentId : String) (records : ManagedRecords cryptr) :
    Except Refusal Materials := do
  let plan := records.plan
  let repository := records.repository
  during .repositoryAgent
    (refuseIf (repository.agentId != agentId) ⟨403, "Managed repository belongs to another agent."⟩)
  during .repositoryMetadata
    (refuseIf (repository.storageId != plan.storageId ||
      some repository.storagePath != plan.storagePath)
      ⟨409, "Managed repository metadata no longer matches the plan."⟩)
  assertSupportedPlan server fold letter plan false
  during .repositoryPath (validateStoragePath repository.storagePath)
  let rclone ← materializeSftpStorage server repository.storageId
  let repositoryPassword ← during .repositorySecretDecryption
    (@decryptRepositoryPassword cryptr repository.encryptedPassword)
  let sourcePath ← during .sourceValidation (getSingleSource plan.sourceConfig)
  let excludes ← during .sourceValidation (getSafeExcludes letter plan.sourceConfig)
  during .sourceValidation (assertReceipt letter plan records.backup excludes)
  let agent ← during .sourceValidation (getCapableAgent server plan.sourceId)
  let lifecycle ← during .databaseCredentialPreparation (sentLifecycle server fold plan agent)
  return { agent, lifecycle, sourcePath, excludes, rclone, repositoryPassword }

def materializeCommand (agentId : String) (command : AgentCommand) :
    Except RemoteCommandPreparationError Json.Fields :=
  if command.type != "BACKUP_FILESYSTEM" then .ok command.payload
  else do
    let reference ← (readReference agentId command).mapError (⟨·, none, none, none⟩)
    let records ← (loadRecords server reference).mapError (⟨·, some reference.backupId,
        some reference.planId, none⟩)
    let materials ← (prepareMaterials server fold letter agentId records).mapError
      (⟨·, some reference.backupId, some reference.planId, some records.repository.storageId⟩)
    return payloadOf records materials

end

end Pluton.Envelope
