-- SUMMARY: `RemoteBackupService.completeCommand` down to the plan's statistics, await by await.
import Pluton.Await.Pool
import Pluton.RemoteBackup.Completion
import Pluton.Table

/-!
# The snapshots of a plan

A run of `RemoteBackupService.completeCommand` reads the plan before it records the backup,
and adds the snapshot of the backup to the statistics that it read. Other runs may record
their backups in between.

The statements of this module do not fail. A crash ends the runs under way.
-/
namespace Pluton.RemoteBackup.PlanStats

open Await
open Agent (AgentCommand)

/-! ## Data -/

/-- `stats` of a plan. -/
structure Stats where
  size : Nat
  snapshots : List String
  deriving DecidableEq

structure PlanRow extends Plan where
  id : String
  stats : Option Stats := none
  deriving DecidableEq

/-- `plan.stats?.snapshots || []` -/
def PlanRow.snapshots (plan : PlanRow) : List String := (plan.stats.map Stats.snapshots).getD []

/-- `plan.stats?.size || 0` -/
def PlanRow.size (plan : PlanRow) : Nat := (plan.stats.map Stats.size).getD 0

/-- A row of `backups` with the summary that its completion left, of which only the
`snapshot_id` is used. -/
structure BackupRow extends Backup where
  completionStats : Option String := none

/-- A completion with `total_bytes_processed` of its summary. -/
structure RemoteCompletion extends Completion where
  totalBytesProcessed : Nat := 0
  deriving DecidableEq

/-- A call of `completeCommand`. -/
structure Call where
  command : AgentCommand
  completion : RemoteCompletion

structure Database where
  plans : List PlanRow
  backups : List BackupRow

/-- What a run holds once it has found the completion valid. `plan` is the row as it was then. -/
structure Recording where
  reference : CommandReference
  snapshotId : String
  totalBytesProcessed : Nat
  warnings : List LifecycleWarning
  plan : Option PlanRow
  deriving DecidableEq

/-- The statement a run waits for. -/
inductive Loc where
  | currentRead (command : AgentCommand) (reference : CommandReference)
      (completion : RemoteCompletion)
  | cancelledUpdate (backupId : String)
  | failureFinalized (backupId error : String) (sourceFailure : Bool)
  | failureCancelled (backupId error : String) (sourceFailure : Bool)
  | failureCurrent (backupId error : String)
  | failureUpdate (backupId error : String)
  | planRead (reference : CommandReference) (completion : RemoteCompletion)
      (result : CompletionResult)
  | completeFinalized (recording : Recording)
  | completePlan (recording : Recording)
  | completeUpdate (recording : Recording)
  | warningsUpdate (recording : Recording)
  | markInitialized (recording : Recording)
  | statsUpdate (recording : Recording) (plan : PlanRow)
  deriving DecidableEq

inductive Ret where
  | done
  | refused (status : Nat) (message : String)
  deriving DecidableEq

namespace Database

variable (d : Database)

/-- `PlanStore.getById` -/
def getPlan (planId : String) : Option PlanRow := d.plans.find? fun plan => plan.id = planId

/-- `PlanStore.update` -/
def updatePlan (planId : String) (set : PlanRow → PlanRow) : Database :=
  { d with plans := Table.update d.plans (fun plan => plan.id = planId) set }

/-- `BackupStore.getById`, without the summary. -/
def getBackup (backupId : String) : Option Backup :=
  (d.backups.find? fun backup => backup.id = backupId).map BackupRow.toBackup

/-- `BackupStore.update` -/
def updateBackup (backupId : String) (set : BackupRow → BackupRow) : Database :=
  { d with backups := Table.update d.backups (fun backup => backup.id = backupId) set }

/-- The snapshots that a plan lists. -/
def snapshots (planId : String) : List String := ((d.getPlan planId).map PlanRow.snapshots).getD []

end Database

/-! ## Updates -/

/-- An update of columns that are not the summary. -/
def BackupRow.lift (set : Backup → Backup) (row : BackupRow) : BackupRow :=
  { row with toBackup := set row.toBackup }

/-- The update of `onBackupComplete` for a success with a summary. -/
def recordComplete (snapshotId : String) (row : BackupRow) : BackupRow :=
  { row.lift completeSet with completionStats := some snapshotId }

/-- `[...new Set([...snapshots, snapshotId])]` -/
def addSnapshot (snapshots : List String) (snapshotId : String) : List String :=
  (snapshots ++ [snapshotId]).eraseDups

/-- The statistics that a run writes, from the plan as the run read it. -/
def Recording.stats (recording : Recording) (plan : PlanRow) : Stats where
  size := max plan.size recording.totalBytesProcessed
  snapshots := addSnapshot plan.snapshots recording.snapshotId

/-! ## Resumptions -/

/-- `completeCommand` up to its first `await`. -/
def enter (call : Call) : Phase Loc Ret :=
  if call.command.type ≠ .backupFilesystem then .returned .done
  else match commandReference call.command.payload with
    | some reference => .waiting (.currentRead call.command reference call.completion)
    | none => .returned (.refused 400 "Remote backup command payload is invalid.")

/-- From the read of the backup to the next `await`. -/
def settleCurrent (command : AgentCommand) (reference : CommandReference)
    (completion : RemoteCompletion) (current : Option Backup) : Phase Loc Ret :=
  if alreadySettled current completion.toCompletion then .returned .done
  else if (command.state = .cancelled ∨ completion.cancelled) ∧
    completion.lifecycleSuccess = false then
    .waiting (.cancelledUpdate reference.backupId)
  else if completion.success = false then
    .waiting (.failureFinalized reference.backupId (remoteBackupFailure completion.toCompletion)
      (completion.failureStage.isSome && completion.failureCode.isSome))
  else
    match completion.result with
    | some result =>
        if isSafeSnapshotId result.snapshotId ∧ result.summarySnapshotId = result.snapshotId then
          .waiting (.planRead reference completion result)
        else
          .waiting (.failureFinalized reference.backupId
            "Remote agent completed without valid snapshot metadata." false)
    | none =>
        .waiting (.failureFinalized reference.backupId
          "Remote agent completed without valid snapshot metadata." false)

/-- From the read of the plan to the next `await`. -/
def checkArtifacts (reference : CommandReference) (completion : RemoteCompletion)
    (result : CompletionResult) (plan : Option PlanRow) : Phase Loc Ret :=
  if artifactsInvalid ((plan.map (·.configured)).getD []) result then
    .waiting (.failureFinalized reference.backupId
      ("Remote agent completed without valid database artifact metadata " ++
        "(snapshot-confirmation/snapshot-confirmation-failed).") false)
  else
    .waiting (.completeFinalized
      { reference, snapshotId := result.snapshotId,
        totalBytesProcessed := completion.totalBytesProcessed,
        warnings := (result.lifecycle.map (·.warnings)).getD [], plan })

/-- From the end of `onBackupComplete` to the next `await`. -/
def Recording.afterComplete (recording : Recording) : Loc :=
  if recording.warnings = [] then .markInitialized recording else .warningsUpdate recording

/-- One statement, and the code up to the next `await`. -/
def Loc.statement (d : Database) : Loc → Database × Phase Loc Ret
  | .currentRead command reference completion =>
      (d, settleCurrent command reference completion (d.getBackup reference.backupId))
  | .cancelledUpdate backupId => (d.updateBackup backupId (·.lift cancelledSet), .returned .done)
  | .failureFinalized backupId error sourceFailure =>
      if wasFinalized (d.getBackup backupId) then (d, .returned .done)
      else (d, .waiting (.failureCancelled backupId error sourceFailure))
  | .failureCancelled backupId error sourceFailure =>
      if wasCancelled (d.getBackup backupId) then (d, .returned .done)
      else if sourceFailure then (d, .waiting (.failureCurrent backupId error))
      else (d, .waiting (.failureUpdate backupId error))
  | .failureCurrent backupId error => (d, .waiting (.failureUpdate backupId error))
  | .failureUpdate backupId error =>
      (d.updateBackup backupId (·.lift (failureSet error)), .returned .done)
  | .planRead reference completion result =>
      (d, checkArtifacts reference completion result (d.getPlan reference.planId))
  | .completeFinalized recording =>
      -- `onBackupComplete` leaves a finished backup alone, and `completeCommand` goes on
      if wasFinalized (d.getBackup recording.reference.backupId) then
        (d, .waiting recording.afterComplete)
      else (d, .waiting (.completePlan recording))
  | .completePlan recording => (d, .waiting (.completeUpdate recording))
  | .completeUpdate recording =>
      (d.updateBackup recording.reference.backupId (recordComplete recording.snapshotId),
        .waiting recording.afterComplete)
  | .warningsUpdate recording =>
      (d.updateBackup recording.reference.backupId
          (·.lift fun backup => { backup with errorMsg := some (warningText recording.warnings) }),
        .waiting (.markInitialized recording))
  | .markInitialized recording =>
      match recording.plan with
      | some plan => (d, .waiting (.statsUpdate recording plan))
      | none => (d, .returned .done)
  | .statsUpdate recording plan =>
      (d.updatePlan plan.id fun row => { row with stats := some (recording.stats plan) },
        .returned .done)

/-- The runs of `completeCommand`. -/
def service : Program Database Call Unit Loc Ret where
  enter := fun _ call => enter call
  resume := fun _ _ d l => l.statement d

abbrev State := Config Database Call Loc Ret
abbrev Labels := List (Label Call Unit)

/-- No run is under way. -/
def atRest (d : Database) : State := ⟨0, d, []⟩

/-- Every run has settled. -/
def Settled (s : State) : Prop := ∀ task ∈ s.tasks, ∃ r, task.phase = .returned r

end Pluton.RemoteBackup.PlanStats
