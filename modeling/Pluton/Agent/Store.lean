-- SUMMARY: The agent command table and the statements that lease, run and settle commands.
import Pluton.Await.Pool
import Pluton.Table

/-!
# The durable agent command queue

Rows of `agent_commands` (`backend/src/db/schema/agents.ts`) and the operations
of `AgentStore` on them (`backend/src/stores/AgentStore.ts`). Every operation is
a short sequence of awaited statements without a transaction, so each is given
as one resumption per statement: the statement, then the code up to the next
`await`.

Times are milliseconds. A `timestamp` column holds whole seconds, so a date is
truncated when it is stored or compared by the database, and a stored one is
read back at the start of its second.
-/
namespace Pluton.Agent

open Await

inductive AgentCommandType where
  | ping
  | inventoryRefresh
  | backupFilesystem
  | sourceAccessValidate
  | sourceAccessApply
  | sourceAccessModeSetup
  deriving DecidableEq

inductive AgentCommandState where
  | queued
  | leased
  | acknowledged
  | running
  | completed
  | failed
  | cancelled
  | expired
  deriving DecidableEq

namespace AgentCommandState

/-- The states of a command that some attempt holds a lease on. -/
def active (s : AgentCommandState) : Bool :=
  [leased, acknowledged, running].contains s

/-- The states a command never leaves. -/
def terminal (s : AgentCommandState) : Bool :=
  [completed, failed, cancelled].contains s

end AgentCommandState

/-- The column value of a date. -/
def column (ms : Nat) : Nat := ms / 1000

/-- The date a column value is read back as. -/
def date (seconds : Nat) : Nat := seconds * 1000

/-- A row of `agent_commands`. A payload field that is not a string is `none`. -/
structure AgentCommand where
  id : String
  agentId : String
  type : AgentCommandType := .ping
  payload : List (String × Option String) := []
  state : AgentCommandState := .queued
  createdAt : Nat := 0
  leasedAt : Option Nat := none
  leaseOwner : Option String := none
  leaseExpiresAt : Option Nat := none
  acknowledgedAt : Option Nat := none
  completedAt : Option Nat := none
  attemptCount : Nat := 0
  lastEventSequence : Nat := 0
  lastError : Option String := none
  deriving DecidableEq

namespace AgentCommand

/-- `gt(leaseExpiresAt, now)`: a comparison of column values. -/
def leaseAfter (row : AgentCommand) (now : Nat) : Bool :=
  match row.leaseExpiresAt with
  | some e => column now < e
  | none => false

/-- `lte(leaseExpiresAt, now)`: a comparison of column values, false on null. -/
def leaseUntil (row : AgentCommand) (now : Nat) : Bool :=
  match row.leaseExpiresAt with
  | some e => e ≤ column now
  | none => false

/-- `leaseOwner !== leaseToken || !leaseExpiresAt || leaseExpiresAt <= now`: the
check made on a row that was read, against the exact clock. -/
def notHeldBy (row : AgentCommand) (leaseToken : String) (now : Nat) : Bool :=
  row.leaseOwner ≠ some leaseToken ||
    match row.leaseExpiresAt with
    | some e => date e ≤ now
    | none => true

/-- The exact clock and the truncated one agree on when a stored lease ends. -/
theorem notHeldBy_eq_false {row : AgentCommand} {leaseToken : String} {now : Nat} :
    row.notHeldBy leaseToken now = false ↔
      row.leaseOwner = some leaseToken ∧ row.leaseAfter now := by
  cases hexp : row.leaseExpiresAt with
  | none => simp [notHeldBy, leaseAfter, hexp]
  | some e =>
      have hclock : now < date e ↔ column now < e := by
        simp only [date, column]
        omega
      simp [notHeldBy, leaseAfter, hexp, hclock]

end AgentCommand

/-! ## Calls -/

/-- A call of an `AgentStore` operation, without the clock it is given. -/
inductive Call where
  | leaseNext (agentId leaseOwner : String) (leaseMs : Nat)
  | acknowledgeCommand (agentId commandId leaseToken : String)
  | recordCommandEvent (agentId commandId leaseToken : String) (sequence leaseMs : Nat)
  | completeCommand (agentId commandId leaseToken : String) (sequence : Nat) (success : Bool)
      (error : Option String)
  | cancelCommand (commandId : String)
  | getCommandStatus (agentId commandId leaseToken : String) (leaseMs : Nat)

/-- The statement a call waits for, with what the call still needs. `now` is the
clock the call was given; `at` the clock read for a column it is about to set. -/
inductive Loc where
  | leaseExpire (agentId leaseOwner : String) (leaseMs now : Nat)
  | leaseGate (agentId leaseOwner : String) (leaseMs now : Nat)
  | leasePick (agentId leaseOwner : String) (leaseMs now : Nat)
  | leaseUpdate (agentId leaseOwner : String) (leaseMs now : Nat) (candidate : AgentCommand)
  | ackRead (agentId commandId leaseToken : String) (now : Nat)
  | ackUpdate (agentId commandId leaseToken : String) (now at_ : Nat)
  | eventRead (agentId commandId leaseToken : String) (sequence leaseMs now : Nat)
  | eventUpdate (agentId commandId leaseToken : String) (sequence leaseMs now : Nat)
  | completeRead (agentId commandId leaseToken : String) (sequence : Nat) (success : Bool)
      (error : Option String) (now : Nat)
  | completeUpdate (agentId commandId leaseToken : String) (sequence : Nat) (success : Bool)
      (error : Option String) (now at_ : Nat)
  | cancelRead (commandId : String)
  | cancelUpdate (commandId : String) (existing : AgentCommand) (at_ : Nat)
  | statusRead (agentId commandId leaseToken : String) (leaseMs now : Nat)
  | statusUpdate (agentId commandId leaseToken : String) (leaseMs now : Nat)

/-- What a call returns: a row or null, or for `getCommandStatus` a row with the
cancellation flag or null. -/
inductive Ret where
  | command (row : Option AgentCommand)
  | status (row : Option (AgentCommand × Bool))
  deriving DecidableEq

abbrev Commands := List AgentCommand

/-! ## Statements -/

/-- `getCommandForAgent`. -/
def getCommandForAgent (rows : Commands) (agentId commandId : String) : Option AgentCommand :=
  rows.find? fun row => row.id = commandId ∧ row.agentId = agentId

/-- Condition of the first statement of `leaseNext`. -/
def expireCond (agentId : String) (now : Nat) (row : AgentCommand) : Bool :=
  row.agentId = agentId ∧ row.state.active ∧ row.leaseUntil now

/-- Assignments of the first statement of `leaseNext`: expired leases become
available again. -/
def expireSet (row : AgentCommand) : AgentCommand :=
  { row with state := .queued, leaseOwner := none, leaseExpiresAt := none, leasedAt := none }

/-- Second statement of `leaseNext`: is a non-expired command active for the agent? -/
def activeCommand (agentId : String) (now : Nat) (rows : Commands) : Option AgentCommand :=
  rows.find? fun row => row.agentId = agentId ∧ row.state.active ∧ row.leaseAfter now

/-- Third statement of `leaseNext`: the oldest queued command. -/
def pickCandidate (agentId : String) (rows : Commands) : Option AgentCommand :=
  Table.firstBy (·.createdAt) (fun row => row.agentId = agentId ∧ row.state = .queued) rows

/-- Condition of the last statement of `leaseNext`. -/
def leaseCond (candidate row : AgentCommand) : Bool :=
  row.id = candidate.id ∧ row.state = .queued

/-- Assignments of the last statement of `leaseNext`. -/
def leaseSet (leaseOwner : String) (leaseMs now : Nat) (candidate row : AgentCommand) :
    AgentCommand :=
  { row with
    state := .leased
    leaseOwner := some leaseOwner
    leasedAt := some (column now)
    leaseExpiresAt := some (column (now + leaseMs))
    attemptCount := candidate.attemptCount + 1 }

/-- The row belongs to the agent and its lease is held by the token at `now`.
Every conditional update made for an attempt starts with this. -/
def leaseHeld (agentId commandId leaseToken : String) (now : Nat) (row : AgentCommand) : Bool :=
  row.id = commandId ∧ row.agentId = agentId ∧ row.leaseOwner = some leaseToken ∧
    row.leaseAfter now

def ackCond (agentId commandId leaseToken : String) (now : Nat) (row : AgentCommand) : Bool :=
  leaseHeld agentId commandId leaseToken now row ∧
    [AgentCommandState.leased, .acknowledged].contains row.state

def ackSet (at_ : Nat) (row : AgentCommand) : AgentCommand :=
  { row with state := .acknowledged, acknowledgedAt := some (column at_) }

/-- The condition that `recordCommandEvent` and `completeCommand` share: the lease
is held, the command is active and the sequence is new. -/
def sequenceCond (agentId commandId leaseToken : String) (sequence now : Nat)
    (row : AgentCommand) : Bool :=
  leaseHeld agentId commandId leaseToken now row ∧ row.state.active ∧
    row.lastEventSequence < sequence

def eventSet (sequence leaseMs now : Nat) (row : AgentCommand) : AgentCommand :=
  { row with
    state := .running
    lastEventSequence := sequence
    leaseExpiresAt := some (column (now + leaseMs)) }

def completeSet (sequence : Nat) (success : Bool) (error : Option String) (at_ : Nat)
    (row : AgentCommand) : AgentCommand :=
  { row with
    state := if success then .completed else .failed
    completedAt := some (column at_)
    lastEventSequence := sequence
    lastError :=
      if success then none
      else match error with
        | some e => some (if e = "" then "Agent reported command failure." else e)
        | none => some "Agent reported command failure." }

def cancelCond (commandId : String) (row : AgentCommand) : Bool :=
  row.id = commandId ∧
    [AgentCommandState.queued, .leased, .acknowledged, .running].contains row.state

def cancelSet (at_ : Nat) (row : AgentCommand) : AgentCommand :=
  { row with
    state := .cancelled
    completedAt := some (column at_)
    lastError := some "Cancelled by user." }

def statusCond (agentId commandId leaseToken : String) (now : Nat) (row : AgentCommand) : Bool :=
  leaseHeld agentId commandId leaseToken now row ∧ row.state.active

def statusSet (leaseMs now : Nat) (row : AgentCommand) : AgentCommand :=
  { row with leaseExpiresAt := some (column (now + leaseMs)) }

/-! ## Resumptions -/

/-- The synchronous start of a call: it only fixes the clock the call works with. -/
def enter (clock : Nat) : Call → Phase Loc Ret
  | .leaseNext agentId leaseOwner leaseMs =>
    .waiting (.leaseExpire agentId leaseOwner leaseMs clock)
  | .acknowledgeCommand agentId commandId leaseToken =>
    .waiting (.ackRead agentId commandId leaseToken clock)
  | .recordCommandEvent agentId commandId leaseToken sequence leaseMs =>
    .waiting (.eventRead agentId commandId leaseToken sequence leaseMs clock)
  | .completeCommand agentId commandId leaseToken sequence success error =>
    .waiting (.completeRead agentId commandId leaseToken sequence success error clock)
  | .cancelCommand commandId => .waiting (.cancelRead commandId)
  | .getCommandStatus agentId commandId leaseToken leaseMs =>
    .waiting (.statusRead agentId commandId leaseToken leaseMs clock)

/-- One statement of a call and the code up to its next `await`. -/
def resume (clock : Nat) (_ : Unit) (rows : Commands) : Loc → Commands × Phase Loc Ret
  | .leaseExpire agentId leaseOwner leaseMs now =>
    (Table.update rows (expireCond agentId now) expireSet,
      .waiting (.leaseGate agentId leaseOwner leaseMs now))
  | .leaseGate agentId leaseOwner leaseMs now =>
    match activeCommand agentId now rows with
    | some _ => (rows, .returned (.command none))
    | none => (rows, .waiting (.leasePick agentId leaseOwner leaseMs now))
  | .leasePick agentId leaseOwner leaseMs now =>
    match pickCandidate agentId rows with
    | none => (rows, .returned (.command none))
    | some candidate =>
      (rows, .waiting (.leaseUpdate agentId leaseOwner leaseMs now candidate))
  | .leaseUpdate _ leaseOwner leaseMs now candidate =>
    let cond := leaseCond candidate
    let set := leaseSet leaseOwner leaseMs now candidate
    (Table.update rows cond set, .returned (.command (Table.returning rows cond set).head?))
  | .ackRead agentId commandId leaseToken now =>
    match getCommandForAgent rows agentId commandId with
    | none => (rows, .returned (.command none))
    | some existing =>
      if existing.state = .completed ∨ existing.state = .failed then
        (rows, .returned (.command (some existing)))
      else if existing.notHeldBy leaseToken now then (rows, .returned (.command none))
      else (rows, .waiting (.ackUpdate agentId commandId leaseToken now clock))
  | .ackUpdate agentId commandId leaseToken now at_ =>
    let cond := ackCond agentId commandId leaseToken now
    (Table.update rows cond (ackSet at_),
      .returned (.command (Table.returning rows cond (ackSet at_)).head?))
  | .eventRead agentId commandId leaseToken sequence leaseMs now =>
    match getCommandForAgent rows agentId commandId with
    | none => (rows, .returned (.command none))
    | some existing =>
      if existing.state.terminal then (rows, .returned (.command (some existing)))
      else if existing.notHeldBy leaseToken now then (rows, .returned (.command none))
      else if sequence ≤ existing.lastEventSequence then
        (rows, .returned (.command (some existing)))
      else (rows, .waiting (.eventUpdate agentId commandId leaseToken sequence leaseMs now))
  | .eventUpdate agentId commandId leaseToken sequence leaseMs now =>
    let cond := sequenceCond agentId commandId leaseToken sequence now
    let set := eventSet sequence leaseMs now
    (Table.update rows cond set, .returned (.command (Table.returning rows cond set).head?))
  | .completeRead agentId commandId leaseToken sequence success error now =>
    match getCommandForAgent rows agentId commandId with
    | none => (rows, .returned (.command none))
    | some existing =>
      if existing.state.terminal then (rows, .returned (.command (some existing)))
      else if existing.notHeldBy leaseToken now then (rows, .returned (.command none))
      else if sequence ≤ existing.lastEventSequence then (rows, .returned (.command none))
      else
        (rows,
          .waiting (.completeUpdate agentId commandId leaseToken sequence success error now clock))
  | .completeUpdate agentId commandId leaseToken sequence success error now at_ =>
    let cond := sequenceCond agentId commandId leaseToken sequence now
    let set := completeSet sequence success error at_
    (Table.update rows cond set, .returned (.command (Table.returning rows cond set).head?))
  | .cancelRead commandId =>
    match rows.find? fun row => row.id = commandId with
    | none => (rows, .returned (.command none))
    | some existing =>
      if existing.state.terminal then (rows, .returned (.command (some existing)))
      else (rows, .waiting (.cancelUpdate commandId existing clock))
  | .cancelUpdate commandId existing at_ =>
    let cond := cancelCond commandId
    let set := cancelSet at_
    (Table.update rows cond set,
      .returned (.command ((Table.returning rows cond set).head? <|> some existing)))
  | .statusRead agentId commandId leaseToken leaseMs now =>
    match getCommandForAgent rows agentId commandId with
    | none => (rows, .returned (.status none))
    | some existing =>
      if existing.leaseOwner ≠ some leaseToken then (rows, .returned (.status none))
      else if existing.state = .cancelled then (rows, .returned (.status (some (existing, true))))
      else if existing.state = .completed ∨ existing.state = .failed ∨
          existing.notHeldBy leaseToken now then (rows, .returned (.status none))
      else (rows, .waiting (.statusUpdate agentId commandId leaseToken leaseMs now))
  | .statusUpdate agentId commandId leaseToken leaseMs now =>
    let cond := statusCond agentId commandId leaseToken now
    let set := statusSet leaseMs now
    (Table.update rows cond set,
      .returned (.status ((Table.returning rows cond set).head?.map fun row => (row, false))))

/-- The operations of `AgentStore` on the command table. -/
def store : Program Commands Call Unit Loc Ret where
  enter := enter
  resume := resume

/-! ## What a statement does to a row

Every statement acts on each row by itself: a read leaves all rows alone, a
conditional update rewrites the rows that satisfy its condition. -/

namespace Loc

/-- The rows a statement rewrites. -/
def cond : Loc → AgentCommand → Bool
  | .leaseExpire agentId _ _ now => expireCond agentId now
  | .leaseUpdate _ _ _ _ candidate => leaseCond candidate
  | .ackUpdate agentId commandId leaseToken now _ => ackCond agentId commandId leaseToken now
  | .eventUpdate agentId commandId leaseToken sequence _ now =>
    sequenceCond agentId commandId leaseToken sequence now
  | .completeUpdate agentId commandId leaseToken sequence _ _ now _ =>
    sequenceCond agentId commandId leaseToken sequence now
  | .cancelUpdate commandId _ _ => cancelCond commandId
  | .statusUpdate agentId commandId leaseToken _ now =>
    statusCond agentId commandId leaseToken now
  | _ => fun _ => false

/-- What a statement makes of a row it rewrites. -/
def set : Loc → AgentCommand → AgentCommand
  | .leaseExpire .. => expireSet
  | .leaseUpdate _ leaseOwner leaseMs now candidate => leaseSet leaseOwner leaseMs now candidate
  | .ackUpdate _ _ _ _ at_ => ackSet at_
  | .eventUpdate _ _ _ sequence leaseMs now => eventSet sequence leaseMs now
  | .completeUpdate _ _ _ sequence success error _ at_ => completeSet sequence success error at_
  | .cancelUpdate _ _ at_ => cancelSet at_
  | .statusUpdate _ _ _ leaseMs now => statusSet leaseMs now
  | _ => id

/-- What a statement makes of a row. -/
def apply (l : Loc) (row : AgentCommand) : AgentCommand :=
  if l.cond row then l.set row else row

theorem apply_of_cond {l : Loc} {row : AgentCommand} (h : l.cond row) : l.apply row = l.set row :=
  if_pos h

theorem apply_of_not_cond {l : Loc} {row : AgentCommand} (h : l.cond row = false) :
    l.apply row = row := by
  simp [apply, h]

end Loc

theorem resume_rows (clock : Nat) (e : Unit) (rows : Commands) (l : Loc) :
    (resume clock e rows l).1 = rows.map l.apply := by
  change _ = Table.update rows l.cond l.set
  have hread : Table.update rows (fun _ => false) (id : AgentCommand → AgentCommand) = rows :=
    Table.update_eq_self fun _ _ => rfl
  cases l with
  | leaseExpire => rfl
  | leaseUpdate => rfl
  | ackUpdate => rfl
  | eventUpdate => rfl
  | completeUpdate => rfl
  | cancelUpdate => rfl
  | statusUpdate => rfl
  | leaseGate => simp only [resume, Loc.cond, Loc.set, hread]; split <;> rfl
  | leasePick => simp only [resume, Loc.cond, Loc.set, hread]; split <;> rfl
  | ackRead => simp only [resume, Loc.cond, Loc.set, hread]; repeat' split <;> try rfl
  | eventRead => simp only [resume, Loc.cond, Loc.set, hread]; repeat' split <;> try rfl
  | completeRead => simp only [resume, Loc.cond, Loc.set, hread]; repeat' split <;> try rfl
  | cancelRead => simp only [resume, Loc.cond, Loc.set, hread]; repeat' split <;> try rfl
  | statusRead => simp only [resume, Loc.cond, Loc.set, hread]; repeat' split <;> try rfl

theorem Loc.apply_key (l : Loc) (row : AgentCommand) :
    (l.apply row).id = row.id ∧ (l.apply row).agentId = row.agentId := by
  unfold Loc.apply
  split
  · cases l <;> exact ⟨rfl, rfl⟩
  · exact ⟨rfl, rfl⟩

theorem Loc.apply_of_terminal {l : Loc} {row : AgentCommand} (h : row.state.terminal) :
    l.apply row = row := by
  apply Loc.apply_of_not_cond
  cases hs : row.state <;> simp [hs, AgentCommandState.terminal] at h <;>
    cases l <;>
    simp [Loc.cond, expireCond, leaseCond, ackCond, sequenceCond, cancelCond, statusCond, hs,
      AgentCommandState.active]

theorem Loc.apply_payload (l : Loc) (row : AgentCommand) :
    (l.apply row).type = row.type ∧ (l.apply row).payload = row.payload := by
  unfold Loc.apply
  split
  · cases l <;> exact ⟨rfl, rfl⟩
  · exact ⟨rfl, rfl⟩

theorem keys_apply {rows : Commands} (l : Loc) (hkeys : (rows.map (·.id)).Nodup) :
    ((rows.map l.apply).map (·.id)).Nodup := by
  have hsame : (rows.map l.apply).map (·.id) = rows.map (·.id) := by
    rw [List.map_map]
    exact List.map_congr_left fun row _ => (l.apply_key row).1
  rw [hsame]
  exact hkeys

end Pluton.Agent
