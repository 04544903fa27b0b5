-- SUMMARY: The handlers of `BackupEventService`, interleaved at their awaits.
import Pluton.LocalBackup.Handler

/-!
# The row of a local backup

`backend/src/services/events/BackupEventService.ts` for a plan whose source is `main`. A
handler is started by the event and goes on whenever the runtime resumes it; it reads the
row in one step and writes it in a later one. Only the members of the row that say whether
the backup is finished are kept, and a handler is over with its last write to them: what
follows reads and notifies. Two events that the job emits without an await in between are
two steps here, which a handler that is slow to read cannot tell apart.
-/
namespace Pluton.LocalBackup

inductive BackupStatus where
  | initializing
  | retrying
  | started
  | completed
  | failed
  | cancelled
  deriving DecidableEq

structure BackupRow where
  status : BackupStatus
  success : Option Bool
  inProgress : Bool
  deriving DecidableEq

/-- What `wasFinalized` reads. -/
def BackupRow.isFinal (row : BackupRow) : Bool :=
  !row.inProgress && (row.status == .completed || row.status == .failed)

/-- What `wasCancelled` reads. -/
def BackupRow.isCancelled (row : BackupRow) : Bool := row.status == .cancelled

/-! ## Handlers -/

/-- The next thing a handler does once it is resumed. -/
inductive Handler where
  | initGetById
  | initRetry
  | initHasActiveBackups
  | initGetPlan
  | initCreate
  | initCreated
  | completeFinalized (success : Bool)
  | completeCancelled
  | completeUpdate (success : Bool)
  | errorCancelled
  | errorUpdate
  | failureFinalized
  | failureCancelled
  | failureUpdate
  | settled
  deriving DecidableEq

/-- What the other tables answer: another backup of the plan is in progress, and the plan
exists with data that can be stored. -/
structure Answer where
  othersActive : Bool := false
  plan : Bool := true

/-- The row that the handler leaves. -/
def Handler.write (row : Option BackupRow) : Handler → Option BackupRow
  | .initRetry => row.map fun row => { row with inProgress := true, status := .retrying }
  | .initCreate => row.or (some { status := .initializing, success := none, inProgress := true })
  | .completeUpdate success =>
      row.map fun _ => { inProgress := false, status := if success then .completed else .failed,
                         success := some success }
  | .errorUpdate => row.map fun row => { row with status := .retrying }
  | .failureUpdate =>
      row.map fun _ => { status := .failed, success := some false, inProgress := false }
  | _ => row

/-- Where the handler stands afterwards. The key of a row that exists refuses another one. -/
def Handler.next (answer : Answer) (row : Option BackupRow) : Handler → Handler
  | .initGetById => if row.isSome then .initRetry else .initHasActiveBackups
  | .initRetry => .initCreated
  | .initHasActiveBackups =>
      if answer.othersActive || row.any (·.inProgress) then .settled else .initGetPlan
  | .initGetPlan => if answer.plan then .initCreate else .settled
  | .initCreate => if row.isSome then .settled else .initCreated
  | .initCreated => .settled
  | .completeFinalized success =>
      if row.any BackupRow.isFinal then .settled
      else if success then .completeUpdate true
      else .completeCancelled
  | .completeCancelled => if row.any BackupRow.isCancelled then .settled else .completeUpdate false
  | .completeUpdate _ => .settled
  | .errorCancelled => if row.any BackupRow.isCancelled then .settled else .errorUpdate
  | .errorUpdate => .settled
  | .failureFinalized => if row.any BackupRow.isFinal then .settled else .failureCancelled
  | .failureCancelled => if row.any BackupRow.isCancelled then .settled else .failureUpdate
  | .failureUpdate => .settled
  | .settled => .settled

/-- The outcome that a handler may still write. -/
def Handler.outcome : Handler → Option Bool
  | .completeFinalized success | .completeUpdate success => some success
  | .completeCancelled | .failureFinalized | .failureCancelled | .failureUpdate => some false
  | _ => none

/-! ## Events -/

/-- The handler that an event starts. The one of `backup_start` writes before its first
await, see `Event.write`. -/
def Event.handler : Event → Option Handler
  | .init => some .initGetById
  | .complete success => some (.completeFinalized success)
  | .error _ => some .errorCancelled
  | .failed _ => some .failureFinalized
  | .attempt _ | .created | .start => none

/-- `onBackupStart` -/
def Event.write (row : Option BackupRow) : Event → Option BackupRow
  | .start => row.map fun row => { row with status := .started }
  | _ => row

def Event.isOutcome : Event → Bool
  | .complete _ | .failed _ => true
  | _ => false

/-! ## The system -/

/-- The row, the events that the job is still to emit, and the handlers started so far.
`waiting` says that the job waits for `backup_created`, `heard` that it was emitted since. -/
structure World where
  row : Option BackupRow := none
  rest : List Event
  handlers : List Handler := []
  waiting : Bool := false
  heard : Bool := false

inductive Label where
  | emit
  | resume (i : Nat) (answer : Answer)

namespace World

variable (s : World)

/-- The job goes on: it waits for `backup_created`, and does not give up once it was heard. -/
def ready (event : Event) : Bool := if event = .created then s.heard else !(s.waiting && s.heard)

def emit : World :=
  match s.rest with
  | [] => s
  | event :: rest =>
      if s.ready event then
        { row := event.write s.row
          rest
          handlers := s.handlers ++ event.handler.toList
          waiting := event == .init
          heard := s.heard && event != .init }
      else s

def resume (i : Nat) (answer : Answer) : World :=
  match s.handlers[i]? with
  | some handler =>
      { s with
        row := handler.write s.row
        handlers := s.handlers.set i (handler.next answer s.row)
        heard := s.heard || handler == .initCreated }
  | none => s

def step : Label → World
  | .emit => s.emit
  | .resume i answer => s.resume i answer

/-- The job is over and so are all handlers. -/
def isSettled : Bool := s.rest.isEmpty && s.handlers.all (· == .settled)

/-- The job or a handler is still to write an outcome. -/
def outcomeToCome : Bool := s.rest.any Event.isOutcome || s.handlers.any (·.outcome.isSome)

/-- `onBackupError` and the retry of `onBackupInit` update the row only while it is not
finished, and `onBackupInit` creates it only while an outcome is still to be written. -/
def guarded : Label → Bool
  | .emit => true
  | .resume i _ =>
      match s.handlers[i]? with
      | some .initRetry | some .errorUpdate => !s.row.any BackupRow.isFinal
      | some .initCreate => s.row.isSome || s.outcomeToCome
      | _ => true

end World

end Pluton.LocalBackup
