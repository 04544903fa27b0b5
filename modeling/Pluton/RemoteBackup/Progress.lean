-- SUMMARY: `mergeRemoteProgress` and `updateRemoteProgress`: an event and the latest row.
import Mathlib.Data.Rat.Defs
import Mathlib.Algebra.Order.Ring.Rat
import Pluton.RemoteBackup.Completion

/-!
# Progress of a remote backup

The events of a command arrive in any order and more than once. Each is merged, in a transaction
of its own, into the row as it is then. Rows and events are JSON, so all numbers are finite.
-/
namespace Pluton.RemoteBackup

/-! ## Data -/

/-- `progress_stats` of a row, as far as events write it. -/
structure ProgressStats where
  backupStage : Option String := none
  remoteCommandId : Option String := none
  remoteAttempt : Option Int := none
  remoteEventSequence : Option Int := none
  databaseId : Option String := none
  databaseEngine : Option String := none
  databaseOrdinal : Option Nat := none
  databaseCount : Option Nat := none
  lifecycleStage : Option String := none
  bytesProcessed : Option Rat := none
  filesProcessed : Option Rat := none
  totalFilesProcessed : Option Rat := none
  totalBytesProcessed : Option Rat := none

/-- A row of `backups` with its progress. -/
structure Tracked extends Backup where
  progressStats : Option ProgressStats := none

structure Counters where
  bytesProcessed : Option Rat := none
  filesProcessed : Option Rat := none
  totalBytesProcessed : Option Rat := none
  totalFilesProcessed : Option Rat := none

structure RemoteProgressEvent where
  phase : Option String := none
  backupStage : Option String := none
  lifecycleStage : Option String := none
  databaseId : Option String := none
  engine : Option String := none
  ordinal : Option Nat := none
  count : Option Nat := none
  progress : Option Counters := none

def remoteBackupStages : List String :=
  ["preparing-backup", "validating-source", "preparing-storage", "checking-existing-snapshot",
    "preparing-database", "pre-backup", "dumping-database", "preparing-repository", "backing-up",
    "verifying-snapshot", "post-backup", "cleanup"]

def legacyStages : List (String × String) :=
  [
    ("pre-backup-started", "pre-backup"),
    ("database-dump-started", "dumping-database"),
    ("database-dump-completed", "dumping-database"),
    ("backup-started", "backing-up"),
    ("backup-completed", "verifying-snapshot"),
    ("post-backup-started", "post-backup"),
    ("cleanup-completed", "cleanup"),
    ("cleanup-warning", "cleanup")
  ]

/-- `terminal.has(status)` -/
def terminal : Option BackupStatus → Bool
  | some .completed | some .failed | some .cancelled => true
  | _ => false

/-! ## Merging -/

/-- `typeof value === 'number' && Number.isFinite(value) && value >= 0 ? value : 0` -/
def number : Option Rat → Rat
  | some value => if 0 ≤ value then value else 0
  | none => 0

/-- A text that is not empty. -/
def truthy (text : Option String) : Option String := text.filter (· ≠ "")

/-- `remoteBackupStages.indexOf(value)` -/
def rank (value : Option String) : Int :=
  match value.bind fun stage => remoteBackupStages.idxOf? stage with
  | some index => index
  | none => -1

/-- The stage that an event names. -/
def RemoteProgressEvent.stage (event : RemoteProgressEvent) : Option String :=
  (truthy event.backupStage).or ((truthy event.lifecycleStage).bind fun stage =>
    legacyStages.lookup stage)

/-- The progress that is written: that of the same attempt, with what
the event says laid over it. -/
def mergeStats (current : Option ProgressStats) (commandId : String) (attempt sequence : Int)
    (event : RemoteProgressEvent) :
    ProgressStats :=
  let base := current.getD {}
  let stage := event.stage
  let merged :=
    { base with
      remoteCommandId := some commandId
      remoteAttempt := some attempt
      remoteEventSequence := some sequence
      bytesProcessed :=
        some (max (number base.bytesProcessed) (number (event.progress.bind (·.bytesProcessed))))
      filesProcessed :=
        some (max (number base.filesProcessed) (number (event.progress.bind (·.filesProcessed))))
      totalBytesProcessed :=
        some (max (number base.totalBytesProcessed)
          (number (event.progress.bind (·.totalBytesProcessed))))
      totalFilesProcessed :=
        some (max (number base.totalFilesProcessed)
          (number (event.progress.bind (·.totalFilesProcessed))))
      backupStage :=
        if 0 ≤ rank stage ∧ rank base.backupStage ≤ rank stage then stage else base.backupStage
      lifecycleStage := (truthy event.lifecycleStage).or base.lifecycleStage }
  if (truthy event.databaseId).isSome then
    { merged with
      databaseId := event.databaseId
      databaseEngine := event.engine
      databaseOrdinal := event.ordinal
      databaseCount := event.count }
  else merged

def mergeRemoteProgress (backup : Tracked) (commandId : String) (attempt sequence : Int)
    (event : RemoteProgressEvent) :
    Option (BackupStatus × ProgressStats) :=
  let previous := backup.progressStats
  let previousAttempt := (previous.bind (·.remoteAttempt)).getD 0
  let retry := decide (previousAttempt < attempt)
  if !backup.inProgress || terminal backup.status then none
  else if (truthy (previous.bind (·.remoteCommandId))).any (· ≠ commandId) then none
  else if attempt < previousAttempt then none
  else if !retry && decide (sequence ≤ (previous.bind (·.remoteEventSequence)).getD 0) then none
  else
    let current := if retry then none else previous
    let status :=
      if event.phase = some "accepted" ∧
      (retry ∨ backup.status = some .queued) then .queued else .started
    some (status, mergeStats current commandId attempt sequence event)

/-! ## The store -/

/-- The table of backups by their primary key. -/
abbrev Backups := String → Option Tracked

/-- A delivered event. -/
structure Delivery where
  id : String
  planId : String
  commandId : String
  attempt : Int
  sequence : Int
  event : RemoteProgressEvent

/-- `BackupStore.updateRemoteProgress`, one transaction: the table and the row that is returned. -/
def updateRemoteProgress (rows : Backups) (d : Delivery) : Backups × Option Tracked :=
  match rows d.id with
  | none => (rows, none)
  | some current =>
    if current.planId ≠ some d.planId ∨ current.sourceId = "main" then (rows, none)
    else
      match mergeRemoteProgress current d.commandId d.attempt d.sequence d.event with
      | none => (rows, none)
      | some (status, progressStats) =>
        let row := { current with status := some status, progressStats := some progressStats }
        (Function.update rows d.id (some row), some row)

/-! ## Runs -/

/-- What happens to the table: an event is delivered, or a backup reaches a terminal status. The
latter also writes other columns, of which nothing is assumed. -/
inductive Step where
  | deliver (d : Delivery)
  | finish (id : String) (status : BackupStatus) (ends : terminal (some status) = true)
      (inProgress : Bool)
      (progressStats : Option ProgressStats)

def Step.apply (rows : Backups) : Step → Backups
  | .deliver d => (updateRemoteProgress rows d).1
  | .finish id status _ inProgress progressStats =>
    Function.update rows id ((rows id).map fun row =>
      { row with status := some status, inProgress, progressStats })

def run (rows : Backups) (steps : List Step) : Backups := steps.foldl Step.apply rows

/-- The attempts and sequences of the events that a run applies to a backup, in order. -/
def applied (id : String) : Backups → List Step → List (Int × Int)
  | _, [] => []
  | rows, .deliver d :: steps =>
    if d.id = id ∧ (updateRemoteProgress rows d).2.isSome then
      (d.attempt, d.sequence) :: applied id (updateRemoteProgress rows d).1 steps
    else applied id (updateRemoteProgress rows d).1 steps
  | rows, step :: steps => applied id (step.apply rows) steps

end Pluton.RemoteBackup
