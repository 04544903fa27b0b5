-- SUMMARY: `BackupHandler.execute`, its attempts, and which events they emit.
import Pluton.Effect
import Pluton.Jobs.Processor

/-!
# Local backups

`execute` of `backend/src/managers/handlers/BackupHandler.ts`, one attempt of a backup job.
The environment says at each point where the attempt may fail whether it does. Progress
files are left out: their writes never throw. The processor makes the attempts and emits
an event of its own when the job has failed for good.
-/
namespace Pluton.LocalBackup

open EStateM

/-! ## Failures -/

/-- An error that is thrown: its message, and its members `code` and `retryable`. A `code`
that is no number counts like an unknown number. -/
structure Failure where
  message : String
  code : Option Int := none
  retryable : Option Bool := none
  deriving DecidableEq

def Failure.toTaskError (failure : Failure) : Jobs.TaskError := ⟨failure.message, failure.retryable⟩

/-- Neither the handler nor the processor takes the error for a cancellation. -/
def Failure.uncancelled (failure : Failure) : Bool := !failure.toTaskError.isCancellation

/-- An error of the environment, in a job that nobody cancels. -/
structure Fault where
  failure : Failure
  uncancelled : failure.uncancelled = true

/-- The codes of `RESTIC_EXIT_CODES` that are not retryable. -/
def isRetryableCode (code : Int) : Bool := ! [0, 3, 10, 12, 130].contains code

/-- `resticExitCode !== undefined && !classification.retryable` -/
def Failure.isNonRetryable (failure : Failure) : Bool :=
  failure.code.any fun code => !isRetryableCode code

/-! ## The environment -/

structure PlanScript where
  scriptPath : String
  enabled : Bool := true
  abortOnError : Bool := false

structure PlanScripts where
  onBackupStart : List PlanScript := []
  onBackupEnd : List PlanScript := []
  onBackupError : List PlanScript := []
  onBackupFailure : List PlanScript := []
  onBackupComplete : List PlanScript := []

/-- The calls of `runScripts`. The scripts of `onBackupEnd` are called in two places. -/
inductive Hook where
  | beforeBackup
  | afterBackupSuccess
  | afterBackupOfSuccess
  | afterBackupError
  | afterBackupFailure
  | afterBackupOfFailure
  deriving DecidableEq

def Hook.scripts (scripts : PlanScripts) : Hook → List PlanScript
  | .beforeBackup => scripts.onBackupStart
  | .afterBackupSuccess => scripts.onBackupComplete
  | .afterBackupOfSuccess | .afterBackupOfFailure => scripts.onBackupEnd
  | .afterBackupError => scripts.onBackupError
  | .afterBackupFailure => scripts.onBackupFailure

/-- A run of restic: what it reports through `onError`, and how it fails. -/
structure ResticRun where
  errors : List String := []
  fault : Option Fault := none

/-- What the environment does in one attempt. -/
structure Attempt where
  createArgs : Option Fault := none
  /-- `backup_created` is heard within 30 seconds. -/
  created : Bool := true
  dryRun : ResticRun := {}
  canRun : Option Fault := none
  unlock : Option Fault := none
  backup : ResticRun := {}
  replication : Option Fault := none
  /-- How the script at a position of a hook fails. -/
  script : Hook → Nat → Option String := fun _ _ => none

/-- The options of the plan and of the run that decide what an attempt does. -/
structure Options where
  backupId : String := ""
  scripts : PlanScripts := {}
  skipDryRun : Bool := false
  ignoreErrors : Bool := false
  replication : Bool := false

/-! ## Events -/

/-- What is emitted, and the moments in between that others can see: the start of an
attempt, and the arrival of `backup_created`. -/
inductive Event where
  | attempt (attempts : Nat)
  | init
  | created
  | start
  | complete (success : Bool)
  | error (message : String)
  | failed (message : String)
  deriving DecidableEq

/-- An attempt, over the events emitted so far. -/
abbrev Run (α : Type) := EStateM Failure (List Event) α

def emit (event : Event) : Run Unit := modify (· ++ [event])

def raise : Option Fault → Run Unit
  | some fault => throw fault.failure
  | none => pure ()

/-- `runScriptsForEvent`. Progress is left out, so only a script that aborts is seen. -/
def runScriptsForEvent (scripts : List PlanScript) (outcome : Nat → Option String) :
    Except Failure Unit :=
  scripts.zipIdx.forM fun script =>
    if Js.trim script.1.scriptPath = "" ∨ script.1.enabled = false then .ok ()
    else match outcome script.2 with
      | some message =>
          if script.1.abortOnError then
            .error { message := "Critical 'beforeBackup' hook failed: " ++ message }
          else .ok ()
      | none => .ok ()

/-- `runScripts` -/
def runScripts (o : Options) (a : Attempt) (hook : Hook) : Except Failure Unit :=
  runScriptsForEvent (hook.scripts o.scripts) (a.script hook)

/-! ## An attempt -/

/-- `runResticCommand` with the handlers of `createHandlers`. -/
def runRestic (r : ResticRun) : Run Unit := do
  r.errors.forM fun message => emit (.error message)
  raise r.fault

def waitForBackupCreation (o : Options) (a : Attempt) : Run Unit :=
  if a.created then emit .created
  else throw { message := "Timeout: Did not receive backup_created confirmation for ID: " ++
    o.backupId }

/-- The dry run, whose errors keep the exit code. -/
def dryRunBackup (o : Options) (a : Attempt) : Run Unit :=
  if o.skipDryRun then pure ()
  else do
    match ← observe (runRestic a.dryRun) with
    | .ok _ => pure ()
    | .error e =>
        if o.ignoreErrors then pure ()
        else throw { message := "Dry run failed: " ++ e.message, code := e.code }

def unlockStaleLocks (a : Attempt) : Run Unit :=
  match a.unlock with
  | some fault =>
      let reason := if fault.failure.message = "" then "Reason Unknown" else fault.failure.message
      throw { message := "Failed to unlock stale locks. " ++ reason }
  | none => pure ()

def preBackupPhase (o : Options) (a : Attempt) : Run Unit := do
  emit .init
  waitForBackupCreation o a
  dryRunBackup o a
  emit .start
  raise a.canRun
  MonadExcept.ofExcept (runScripts o a .beforeBackup)
  unlockStaleLocks a

def executeBackupPhase (o : Options) (a : Attempt) : Run Unit := do
  match ← observe (runRestic a.backup) with
  | .ok _ => pure ()
  | .error e => if o.ignoreErrors then pure () else throw e

/-- Pruning and statistics catch what they throw. -/
def postBackupPhase (o : Options) (a : Attempt) : Run Unit :=
  MonadExcept.ofExcept (runScripts o a .afterBackupSuccess)

/-- The `try` of `execute` up to the event of success. -/
def phases (o : Options) (a : Attempt) : Run Unit := do
  raise a.createArgs
  preBackupPhase o a
  executeBackupPhase o a
  postBackupPhase o a
  if o.replication then raise a.replication else pure ()

/-- The `try` of `execute`. -/
def tryBackup (o : Options) (a : Attempt) : Run Unit := do
  phases o a
  emit (.complete true)
  MonadExcept.ofExcept (runScripts o a .afterBackupOfSuccess)

/-- The scripts after a failure. -/
def afterFailure (o : Options) (a : Attempt) (permanentlyFailed : Bool) : Except Failure Unit :=
  if permanentlyFailed then do
    runScripts o a .afterBackupFailure
    runScripts o a .afterBackupOfFailure
  else runScripts o a .afterBackupError

/-- The handler's own verdict that no attempt follows. -/
def permanentlyFailed (attempts : Nat) (maxAttempts : Int) (failure : Failure) : Bool :=
  maxAttempts ≤ attempts + 1 || failure.isNonRetryable

/-- The `catch` of `execute`. -/
def catchFailure (o : Options) (attempts : Nat) (maxAttempts : Int) (a : Attempt) (e : Failure) :
    Run Unit :=
  if "BACKUP_CANCELLED:".toList.isPrefixOf e.message.toList then pure ()
  else do
    if permanentlyFailed attempts maxAttempts e then emit (.complete false) else pure ()
    emit (.error e.message)
    MonadExcept.ofExcept (afterFailure o a (permanentlyFailed attempts maxAttempts e))
    throw { e with retryable := some (!e.isNonRetryable) }

def execute (o : Options) (attempts : Nat) (maxAttempts : Int) (a : Attempt) : Run Unit := do
  match ← observe (tryBackup o a) with
  | .ok _ => pure ()
  | .error e => catchFailure o attempts maxAttempts a e

/-! ## The attempts of a job -/

/-- The job of a backup before its attempt with this number. -/
def backupJob (maxAttempts : Int) (attempts : Nat) : Jobs.Job :=
  { id := 0, name := "Backup", payload := .obj [], attempts, maxAttempts, retryDelay := 0 }

/-- An attempt, from its start to the verdict of the processor. -/
def attempt (o : Options) (attempts : Nat) (maxAttempts : Int) (a : Attempt) :
    List Event × Jobs.Verdict :=
  match execute o attempts maxAttempts a [] with
  | .ok _ events =>
      (.attempt attempts :: events, (backupJob maxAttempts attempts).verdict .resolved)
  | .error e events =>
      match (backupJob maxAttempts attempts).verdict (.rejected (some e.toTaskError)) with
      | .failed => (.attempt attempts :: events ++ [.failed e.message], .failed)
      | verdict => (.attempt attempts :: events, verdict)

/-- The events from the attempt with this number on, of which at most `more` follow. -/
def eventsFrom (o : Options) (maxAttempts : Int) (env : Nat → Attempt) : Nat → Nat → List Event
  | more, attempts =>
      match (attempt o attempts maxAttempts (env attempts)).2, more with
      | .again, more + 1 =>
          (attempt o attempts maxAttempts (env attempts)).1 ++
          eventsFrom o maxAttempts env more (attempts + 1)
      | _, _ => (attempt o attempts maxAttempts (env attempts)).1

/-- The events of the whole life of a job. -/
def jobEvents (o : Options) (maxAttempts : Int) (env : Nat → Attempt) : List Event :=
  eventsFrom o maxAttempts env maxAttempts.toNat 0

end Pluton.LocalBackup
