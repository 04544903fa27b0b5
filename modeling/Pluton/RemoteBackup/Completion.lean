-- SUMMARY: `AgentService.complete` and `RemoteBackupService`: how a completion settles.
import Pluton.Agent.Store
import Pluton.Js

/-!
# Completing a remote backup

A completion of a `BACKUP_FILESYSTEM` command is settled in two places. First
`AgentStore.completeCommand` moves the command, then
`RemoteBackupService.completeCommand` (`backend/src/services`) moves the backup
record through `BackupEventService`. The two are separate awaited statements, so
other completions, a cancellation or a crash may come between them.

Plans and repositories belong to other parts of the server: what a read of them
finds is an answer of the environment, and so is whether a statement fails. What
is written to them after the backup has been settled is left out.
-/
namespace Pluton.RemoteBackup

open Await Agent

/-! ## Data -/

inductive BackupStatus where
  | queued
  | started
  | running
  | retrying
  | completed
  | failed
  | cancelled
  deriving DecidableEq

/-- A row of `backups`; `status` is null when `none`. -/
structure Backup where
  id : String
  planId : Option String
  sourceId : String
  status : Option BackupStatus
  inProgress : Bool
  success : Option Bool := none
  errorMsg : Option String := none

/-- An entry of `lifecycle.databases` in a completion. -/
structure DatabaseArtifact where
  databaseId : String
  engine : String
  database : String
  path : String
  bytes : Nat
  deriving DecidableEq

structure LifecycleWarning where
  stage : String
  code : String
  deriving DecidableEq

structure LifecycleReport where
  warnings : List LifecycleWarning := []
  databases : Option (List DatabaseArtifact) := none
  deriving DecidableEq

/-- `result` of a completion; of its summary only the snapshot id is checked. -/
structure CompletionResult where
  snapshotId : String
  summarySnapshotId : String
  lifecycle : Option LifecycleReport := none
  deriving DecidableEq

/-- A completion that the request schema accepts. -/
structure Completion where
  sequence : Nat
  leaseToken : String
  success : Bool
  error : Option String := none
  failureStage : Option String := none
  failureCode : Option String := none
  sourceDiagnostics : Bool := false
  databaseId : Option String := none
  engine : Option String := none
  cancelled : Bool := false
  result : Option CompletionResult := none
  deriving DecidableEq

/-- `completion.success && completion.result?.lifecycle`: a success that reports on
its lifecycle. -/
def Completion.lifecycleSuccess (completion : Completion) : Bool :=
  completion.success && (completion.result.bind (·.lifecycle)).isSome

/-- A configured database of a plan. -/
structure DatabaseConfig where
  databaseId : Option String
  engine : String
  database : String
  dumpFilename : String
  maxDumpBytes : Nat
  deriving DecidableEq

/-- The part of a plan that a completion is checked against: the databases of its
remote lifecycle. -/
structure Plan where
  configured : List DatabaseConfig := []
  deriving DecidableEq

/-- What the environment answers at an `await`. -/
structure Answer where
  plan : Option Plan := none
  repository : Bool := true
  fails : Bool := false

structure CommandReference where
  backupId : String
  planId : String
  repositoryId : String
  deriving DecidableEq

/-- `value.trim().length > 0` on a payload field. -/
def nonEmptyString (value : Option (Option String)) : Option String :=
  (value.bind id).filter fun text => text.toList.any fun ch => !Js.isWhitespace ch

/-- `commandReference` -/
def commandReference (payload : List (String × Option String)) : Option CommandReference := do
  let backupId ← nonEmptyString (payload.lookup "backupId")
  let planId ← nonEmptyString (payload.lookup "planId")
  let repositoryId ← nonEmptyString (payload.lookup "repositoryId")
  guard (payload.all fun field => ["backupId", "planId", "repositoryId"].contains field.1)
  return ⟨backupId, planId, repositoryId⟩

/-! ## Failure texts -/

/-- `messages` of `remoteBackupDiagnostics`. -/
def messages : List (String × String) :=
  [
    ("command-lease-unavailable",
      "Command lease is expired, invalid or unavailable; backup stopped safely."),
    ("command-authorization-rejected",
      "The server rejected Agent authorization; backup stopped safely."),
    ("control-plane-rate-limited",
      "Command status requests were rate limited after bounded retries; backup stopped safely."),
    ("control-plane-unavailable",
      "Command status service was unavailable after bounded retries; backup stopped safely."),
    ("control-plane-timeout",
      "Command status could not be established before its deadline; backup stopped safely."),
    ("control-plane-network-failed",
      "Command status transport failed after bounded retries; backup stopped safely."),
    ("control-plane-response-invalid",
      "Command status returned malformed JSON or an invalid status schema; backup stopped " ++
        "safely."),
    ("control-plane-unexpected",
      "An unexpected application exception prevented command status verification; backup " ++
        "stopped safely."),
    ("database-artifact-finalization-failed",
      "The dump completed but its private artifact/credential finalization failed; no backup " ++
        "was authorized."),
    ("database-invalid-configuration",
      "The database name or native client connection configuration is invalid. Check the saved " ++
        "database configuration; dump defaults were not changed."),
    ("invalid-payload", "The backup command configuration is invalid."),
    ("source-validation-failed",
      "The source could not be validated. Run the local read-only source preflight."),
    ("state-overlap", "The source overlaps private agent state; backup was refused."),
    ("state-validation-failed", "Private agent state could not be validated."),
    ("tool-unavailable", "The private backup tools are unavailable."),
    ("sftp-password-obscure-failed",
      "The private SFTP authentication configuration could not be prepared."),
    ("temporary-config-failed", "Private temporary storage configuration could not be prepared."),
    ("repository-check-failed", "The repository could not be checked."),
    ("repository-target-check-failed", "The managed repository target could not be checked."),
    ("repository-target-not-empty",
      "Repository initialization was refused because the target is not empty."),
    ("target-check-access-failed", "Access to the managed repository target was denied."),
    ("target-check-auth-failed", "Storage authentication failed."),
    ("target-check-transport-failed", "The storage connection failed."),
    ("repository-initialization-failed", "The managed repository could not be initialized."),
    ("restic-backup-failed", "Restic backup failed; no successful snapshot was confirmed."),
    ("restic-summary-missing", "No valid snapshot summary was returned."),
    ("cleanup-failed", "Private temporary state cleanup needs attention."),
    ("unexpected", "Remote backup failed unexpectedly."),
    ("workspace-failed", "The private lifecycle workspace could not be prepared."),
    ("hook-invalid", "The configured hook violates the allowed hook policy."),
    ("hook-failed", "The configured hook failed."),
    ("hook-timeout", "The configured hook exceeded its timeout."),
    ("hook-output-limit", "The configured hook exceeded its output limit."),
    ("snapshot-confirmation-failed",
      "The exact snapshot and required artifacts could not be confirmed."),
    ("source-parent-not-traversable",
      "The service account cannot traverse a source parent directory. Run the read-only agent " ++
        "preflight and review only the required traverse permissions."),
    ("source-root-not-readable",
      "The source root is not readable/traversable by pluton-agent. Review read-only access to " ++
        "its canonical path."),
    ("source-entry-inaccessible",
      "A source file or directory is inaccessible to pluton-agent. Run the explicit read-only " ++
        "source scan; do not broaden permissions automatically."),
    ("source-missing", "The configured source or an expected source entry is missing."),
    ("source-symlink-escape",
      "The source symlink resolves outside its allowed roots or changed during validation."),
    ("source-unsupported-type", "The selected source has an unsupported file type."),
    ("source-policy-violation",
      "The source violates canonical allowed-root containment or path policy."),
    ("database-auth-failed",
      "Database authentication failed. Verify the backup credential and authentication policy."),
    ("database-insufficient-privileges",
      "Database dump privileges are insufficient. Review database grants and requested " ++
        "routines/events; the password may be correct. Dump options were not changed."),
    ("database-unavailable",
      "The database connection failed. Check the configured host, port and network " ++
        "reachability."),
    ("database-tls-verification-failed",
      "Database TLS verification failed. Check trusted CA material and the server identity; do " ++
        "not disable verification to force a pass."),
    ("database-dump-timeout", "The database dump exceeded its configured timeout."),
    ("database-tool-unavailable", "The required database dump client is unavailable."),
    ("database-client-missing",
      "The required database dump client is missing or cannot be started."),
    ("database-client-incompatible", "The database dump client is incompatible with the server."),
    ("lifecycle-invalid", "The database/hooks configuration is invalid."),
    ("database-dump-invalid", "Database dump output is invalid."),
    ("database-output-empty", "The database dump produced no valid SQL output."),
    ("database-dump-failed",
      "The database dump failed. A partial temporary SQL file is not a successful backup."),
    ("database-dump-output-limit", "The database dump exceeded its configured output limit."),
    ("cancelled", "The remote backup was cancelled.")]

/-- `stages` of `remoteBackupDiagnostics`. -/
def stages : List String :=
  ["post-dump-status-check", "command-status-check", "payload-validation", "source-validation",
    "state-validation", "tool-validation", "sftp-password-obscure", "temporary-storage-config",
    "repository-check", "repository-target-check", "repository-initialization", "restic-backup",
    "cleanup", "lifecycle-validation", "workspace-creation", "pre-backup", "database-dump",
    "database-dump-validation", "snapshot-confirmation", "post-backup"]

/-- `/^db_[A-Za-z0-9_-]{1,80}$/` -/
def databaseIdFormat (databaseId : String) : Bool :=
  match databaseId.toList with
  | 'd' :: 'b' :: '_' :: rest =>
    1 ≤ rest.length ∧ rest.length ≤ 80 ∧
      rest.all fun ch => ch.isAlphanum || ch = '_' || ch = '-'
  | _ => false

/-- `remoteBackupFailure` -/
def remoteBackupFailure (completion : Completion) : String :=
  let code := if completion.cancelled then some "cancelled" else completion.failureCode
  let known := code.bind fun code => (messages.lookup code).map fun text => (code, text)
  let message := (known.map (·.2)).getD
    "Remote backup failed. Review the agent safe stage/code diagnostics."
  let stage := (completion.failureStage.filter stages.contains).getD "unknown-stage"
  let safeCode := (known.map (·.1)).getD "unspecified"
  let database := match completion.databaseId.filter databaseIdFormat with
    | some databaseId =>
      "; databaseId=" ++ databaseId ++ "; engine=" ++
        (completion.engine.filter ["mariadb", "mysql", "postgresql"].contains).getD "unknown"
    | none => ""
  message ++ " (" ++ stage ++ "/" ++ safeCode ++ database ++ ")."

/-! ## Calls -/

/-- A call of the server. `complete` has no completion when the request schema
refuses the input; `store` is an operation of `AgentStore` made for another
request of the agent. -/
inductive Call where
  | complete (agentId commandId : String) (input : Option Completion)
  | cancelBackup (planId backupId : String)
  | store (call : Agent.Call)

/-- What follows an operation of `AgentStore`. -/
inductive After where
  | settle (completion : Completion)
  | cancelled (backupId : String)
  | done

/-- The statement a call waits for, with what the call still needs. The names of
the event service's statements start with the event. -/
inductive Loc where
  | existingRead (agentId commandId : String) (input : Option Completion)
  | diagnosticsRead (agentId commandId : String) (completion : Completion)
  | inStore (l : Agent.Loc) (after : After)
  | currentRead (command : AgentCommand) (reference : CommandReference) (completion : Completion)
  | planRead (command : AgentCommand) (reference : CommandReference) (completion : Completion)
      (result : CompletionResult)
  | completeFinalized (command : AgentCommand) (reference : CommandReference)
      (completion : Completion)
  | completePlan (command : AgentCommand) (reference : CommandReference) (completion : Completion)
  | completeUpdate (command : AgentCommand) (reference : CommandReference)
      (completion : Completion)
  | warningsUpdate (backupId : String) (warnings : List LifecycleWarning)
  | failureFinalized (backupId error : String) (sourceFailure : Bool)
  | failureCancelled (backupId error : String) (sourceFailure : Bool)
  | failureCurrent (backupId error : String)
  | failureUpdate (backupId error : String)
  | cancelledUpdate (backupId : String)
  | cancelRead (planId backupId : String)
  | cancelRepository (planId backupId : String) (backup : Option Backup)

/-- What a call returns. A statement that fails is rethrown as `failed`. -/
inductive Ret where
  | done
  | store (r : Agent.Ret)
  | refused (status : Nat) (message : String)
  | failed

structure Server where
  commands : Commands
  backups : List Backup

namespace Server

/-- `BackupStore.getById` -/
def getById (s : Server) (backupId : String) : Option Backup :=
  s.backups.find? fun backup => backup.id = backupId

/-- `BackupStore.update` -/
def updateBackup (s : Server) (backupId : String) (set : Backup → Backup) : Server :=
  { s with backups := Table.update s.backups (fun backup => backup.id = backupId) set }

end Server

/-! ## Settling the backup -/

/-- The statuses `RemoteBackupService.completeCommand` takes for final. -/
def BackupStatus.final (status : BackupStatus) : Bool :=
  [completed, failed, cancelled].contains status

/-- The first check of `RemoteBackupService.completeCommand`: the backup is final,
and not a cancelled one for which a success is still recorded. -/
def alreadySettled (current : Option Backup) (completion : Completion) : Bool :=
  match current.bind (·.status) with
  | some status => status.final && !(status = .cancelled && completion.lifecycleSuccess)
  | none => false

/-- `/^[A-Fa-f0-9]{8,128}$/` -/
def isSafeSnapshotId (snapshotId : String) : Bool :=
  8 ≤ snapshotId.toList.length ∧ snapshotId.toList.length ≤ 128 ∧
    snapshotId.toList.all fun ch =>
      ch.isDigit || ('a' ≤ ch && ch ≤ 'f') || ('A' ≤ ch && ch ≤ 'F')

/-- `/^[a-f0-9]{64}$/` -/
def isFullSnapshotId (snapshotId : String) : Bool :=
  snapshotId.toList.length = 64 ∧
    snapshotId.toList.all fun ch => ch.isDigit || ('a' ≤ ch && ch ≤ 'f')

/-- The reported artifact is the dump of the configured database. -/
def DatabaseArtifact.proves (artifact : DatabaseArtifact) (entry : DatabaseConfig) : Bool :=
  some artifact.databaseId = entry.databaseId ∧ artifact.engine = entry.engine ∧
    artifact.database = entry.database ∧
    artifact.path = "/pluton/database/" ++ entry.dumpFilename ∧
    0 < artifact.bytes ∧ artifact.bytes ≤ entry.maxDumpBytes

/-- The artifact metadata of a result does not match the plan's databases. -/
def artifactsInvalid (configured : List DatabaseConfig) (result : CompletionResult) : Bool :=
  let reported := result.lifecycle.bind (·.databases)
  (result.lifecycle.isSome && !isFullSnapshotId result.snapshotId) ||
    (1 < configured.length && reported.isNone) ||
    match reported with
    | some reported =>
      reported.length ≠ configured.length ||
        configured.any fun entry => !reported.any fun artifact => artifact.proves entry
    | none => false

/-- `BackupEventService.wasFinalized` on the row it reads. -/
def wasFinalized (backup : Option Backup) : Bool :=
  match backup with
  | some backup =>
    !backup.inProgress && (backup.status = some .completed || backup.status = some .failed)
  | none => false

/-- `BackupEventService.wasCancelled` on the row it reads. -/
def wasCancelled (backup : Option Backup) : Bool :=
  (backup.bind (·.status)) = some .cancelled

/-- The update of `onBackupComplete` for a success. -/
def completeSet (backup : Backup) : Backup :=
  { backup with
    inProgress := false, status := some .completed, success := some true, errorMsg := none }

/-- The update of `onBackupFailure`. -/
def failureSet (error : String) (backup : Backup) : Backup :=
  { backup with
    inProgress := false, status := some .failed, success := some false, errorMsg := some error }

/-- The update of `onBackupCancelled`. -/
def cancelledSet (backup : Backup) : Backup :=
  { backup with inProgress := false, status := some .cancelled, success := some false }

/-- The text recorded for lifecycle warnings. -/
def warningText (warnings : List LifecycleWarning) : String :=
  "Snapshot completed; lifecycle cleanup needs attention: " ++
    ", ".intercalate (warnings.map fun warning => warning.stage ++ "/" ++ warning.code)

/-! ## Resumptions -/

/-- `RemoteBackupService.completeCommand` up to its first `await`. -/
def settleBackup (command : AgentCommand) (completion : Completion) : Phase Loc Ret :=
  if command.type ≠ .backupFilesystem then .returned .done
  else match commandReference command.payload with
    | some reference => .waiting (.currentRead command reference completion)
    | none => .returned (.refused 400 "Remote backup command payload is invalid.")

/-- What a call does with the result of an operation of `AgentStore`. -/
def After.proceed : After → Agent.Ret → Phase Loc Ret
  | .settle completion, .command (some command) =>
    if command.state = .completed ∧ completion.success = false then .returned .done
    else settleBackup command completion
  | .settle _, _ => .returned (.refused 404 "Command not found.")
  | .cancelled backupId, _ => .waiting (.cancelledUpdate backupId)
  | .done, r => .returned (.store r)

/-- The phase of a call inside an operation of `AgentStore`. -/
def After.lift (after : After) : Phase Agent.Loc Agent.Ret → Phase Loc Ret
  | .waiting l => .waiting (.inStore l after)
  | .returned r => after.proceed r
  | .lost => .lost

/-- `AgentService.complete` from its call of `AgentStore.completeCommand` on. -/
def completeAgentCommand (clock : Nat) (agentId commandId : String) (completion : Completion) :
    Phase Loc Ret :=
  let safeError := if completion.success then none else some (remoteBackupFailure completion)
  After.lift (.settle completion)
    (Agent.enter clock (.completeCommand agentId commandId completion.leaseToken
      completion.sequence completion.success safeError))

/-- Source diagnostics are allowed only on a failed backup with a source code. -/
def diagnosticsInvalid (command : Option AgentCommand) (completion : Completion) : Bool :=
  completion.success || completion.cancelled ||
    command.map AgentCommand.type ≠ some .backupFilesystem ||
    ! ["source-entry-inaccessible", "source-root-not-readable", "source-missing"].contains
      (completion.failureCode.getD "") ||
    ! ["source-validation", "restic-backup"].contains (completion.failureStage.getD "")

/-- `RemoteBackupService.completeCommand` after the backup has been recorded as
completed. -/
def afterComplete (reference : CommandReference) (completion : Completion) : Phase Loc Ret :=
  match (completion.result.bind (·.lifecycle)).map (·.warnings) with
  | some (warning :: rest) => .waiting (.warningsUpdate reference.backupId (warning :: rest))
  | _ => .returned .done

/-- `RemoteBackupService.completeCommand` between its two reads. -/
def settleCurrent (command : AgentCommand) (reference : CommandReference)
    (completion : Completion) (current : Option Backup) : Phase Loc Ret :=
  if alreadySettled current completion then .returned .done
  else if (command.state = .cancelled ∨ completion.cancelled) ∧
      completion.lifecycleSuccess = false then
    .waiting (.cancelledUpdate reference.backupId)
  else if completion.success = false then
    .waiting (.failureFinalized reference.backupId (remoteBackupFailure completion)
      (completion.failureStage.isSome && completion.failureCode.isSome))
  else
    match completion.result with
    | some result =>
      if isSafeSnapshotId result.snapshotId ∧ result.summarySnapshotId = result.snapshotId then
        .waiting (.planRead command reference completion result)
      else
        .waiting (.failureFinalized reference.backupId
          "Remote agent completed without valid snapshot metadata." false)
    | none =>
      .waiting (.failureFinalized reference.backupId
        "Remote agent completed without valid snapshot metadata." false)

/-- Where a call goes when the statement it waits for fails. The event service
logs what its own statements throw; anything else ends the call. -/
def Loc.thrown : Loc → Phase Loc Ret
  | .completeFinalized _ reference completion => afterComplete reference completion
  | .completePlan _ reference completion => afterComplete reference completion
  | .completeUpdate _ reference completion => afterComplete reference completion
  | .failureFinalized .. | .failureCancelled .. | .failureCurrent .. | .failureUpdate .. =>
    .returned .done
  | .cancelledUpdate _ => .returned .done
  | _ => .returned .failed

/-- One statement that does not fail, and the code up to the next `await`. -/
def Loc.statement (clock : Nat) (e : Answer) (s : Server) : Loc → Server × Phase Loc Ret
  | .existingRead agentId commandId input =>
    match (getCommandForAgent s.commands agentId commandId).map AgentCommand.type with
    | some .sourceAccessValidate | some .sourceAccessApply | some .sourceAccessModeSetup =>
      -- handed to the source access service, which owns these commands
      (s, .returned .done)
    | _ =>
      match input with
      | none => (s, .returned (.refused 400 "Command completion is invalid."))
      | some completion =>
        if completion.success = false ∧ (completion.error.getD "") = "" then
          (s, .returned (.refused 400 "Command completion is invalid."))
        else if completion.sourceDiagnostics then
          (s, .waiting (.diagnosticsRead agentId commandId completion))
        else (s, completeAgentCommand clock agentId commandId completion)
  | .diagnosticsRead agentId commandId completion =>
    if diagnosticsInvalid (getCommandForAgent s.commands agentId commandId) completion then
      (s, .returned (.refused 400 "Command source diagnostics are invalid."))
    else (s, completeAgentCommand clock agentId commandId completion)
  | .inStore l after =>
    let next := Agent.resume clock () s.commands l
    ({ s with commands := next.1 }, after.lift next.2)
  | .currentRead command reference completion =>
    (s, settleCurrent command reference completion (s.getById reference.backupId))
  | .planRead command reference completion result =>
    if artifactsInvalid ((e.plan.map (·.configured)).getD []) result then
      (s, .waiting (.failureFinalized reference.backupId
        ("Remote agent completed without valid database artifact metadata " ++
          "(snapshot-confirmation/snapshot-confirmation-failed).") false))
    else (s, .waiting (.completeFinalized command reference completion))
  | .completeFinalized command reference completion =>
    if wasFinalized (s.getById reference.backupId) then (s, afterComplete reference completion)
    else (s, .waiting (.completePlan command reference completion))
  | .completePlan command reference completion =>
    (s, .waiting (.completeUpdate command reference completion))
  | .completeUpdate _ reference completion =>
    (s.updateBackup reference.backupId completeSet, afterComplete reference completion)
  | .warningsUpdate backupId warnings =>
    (s.updateBackup backupId fun backup => { backup with errorMsg := some (warningText warnings) },
      .returned .done)
  | .failureFinalized backupId error sourceFailure =>
    if wasFinalized (s.getById backupId) then (s, .returned .done)
    else (s, .waiting (.failureCancelled backupId error sourceFailure))
  | .failureCancelled backupId error sourceFailure =>
    if wasCancelled (s.getById backupId) then (s, .returned .done)
    else if sourceFailure then (s, .waiting (.failureCurrent backupId error))
    else (s, .waiting (.failureUpdate backupId error))
  | .failureCurrent backupId error => (s, .waiting (.failureUpdate backupId error))
  | .failureUpdate backupId error =>
    (s.updateBackup backupId (failureSet error), .returned .done)
  | .cancelledUpdate backupId => (s.updateBackup backupId cancelledSet, .returned .done)
  | .cancelRead planId backupId =>
    (s, .waiting (.cancelRepository planId backupId (s.getById backupId)))
  | .cancelRepository planId backupId backup =>
    match backup with
    | none => (s, .returned (.refused 501 "REMOTE_CAPABILITY_NOT_IMPLEMENTED"))
    | some backup =>
      if e.repository = false ∨ backup.planId ≠ some planId ∨ backup.sourceId = "main" then
        (s, .returned (.refused 501 "REMOTE_CAPABILITY_NOT_IMPLEMENTED"))
      else if backup.inProgress = false then
        (s, .returned (.refused 409 "The remote backup is no longer in progress."))
      else
        (s, After.lift (.cancelled backupId)
          (Agent.enter clock (.cancelCommand ("remote-backup-" ++ backupId))))

def enter (clock : Nat) : Call → Phase Loc Ret
  | .complete agentId commandId input => .waiting (.existingRead agentId commandId input)
  | .cancelBackup planId backupId => .waiting (.cancelRead planId backupId)
  | .store call => After.lift .done (Agent.enter clock call)

def resume (clock : Nat) (e : Answer) (s : Server) (l : Loc) : Server × Phase Loc Ret :=
  if e.fails then (s, l.thrown) else l.statement clock e s

/-- The calls of the server that settle commands and backups. -/
def service : Program Server Call Answer Loc Ret where
  enter := enter
  resume := resume

end Pluton.RemoteBackup
