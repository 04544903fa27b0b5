-- SUMMARY: The tables of managed replication and the operations of their store.
import Pluton.Namespaces.Stores
import Pluton.Pattern
import Pluton.Table

/-!
# The replication store

`ManagedReplicationStore.ts`. A job copies one snapshot to one destination; a
destination is reserved for one replica of one plan. Each operation is one
transaction. What it asks of other tables is an argument.
-/
namespace Pluton.Replication

open Except Namespaces

/-! ## Tables -/

inductive Status where
  | pending
  | running
  | completed
  | failed
  | uncertain
  | cancelled
  deriving DecidableEq

/-- The statuses that hold the execution slot. -/
def Status.holdsSlot (status : Status) : Bool := [running, uncertain].contains status

/-- The statuses that keep a plan, a backup and their resources from being changed. -/
def Status.blocking (status : Status) : Bool := [pending, running, uncertain].contains status

/-- What a job is about. -/
structure Binding where
  backupId : String
  planId : String
  repositoryId : String
  agentId : String
  sourceStorageId : String
  sourceStoragePath : String
  sourceSnapshotId : String
  sourceRepositoryConfigId : String
  sourceTreeId : String
  sourceBindingHash : String
  replicationId : String
  destinationStorageId : String
  destinationStoragePath : String
  destinationFingerprint : String
  deriving DecidableEq

structure ManagedReplicationEnqueue where
  id : String
  binding : Binding
  createdAt : Nat

/-- A row of `managed_replication_jobs`. -/
structure ManagedReplicationJob extends ManagedReplicationEnqueue where
  destinationSnapshotId : Option String := none
  status : Status := .pending
  ownerToken : Option String := none
  attempts : Nat := 0
  lastErrorCode : Option String := none
  updatedAt : Nat
  verifiedAt : Option Nat := none

/-- A row of `managed_replication_destinations`. -/
structure ManagedReplicationDestination extends Destination where
  actualRepositoryId : Option String := none
  createdAt : Nat

/-- The two tables. -/
structure Tables where
  jobs : List ManagedReplicationJob
  destinations : List ManagedReplicationDestination

def Tables.empty : Tables := ⟨[], []⟩

namespace ManagedReplicationStore

variable (db : Tables)

def getById (id : String) : Option ManagedReplicationJob := db.jobs.find? fun job => job.id == id

def getDestination (fingerprint : String) : Option ManagedReplicationDestination :=
  db.destinations.find? fun row => row.fingerprint == fingerprint

def hasBlockingPlan (planId : String) : Bool :=
  db.jobs.any fun job => job.binding.planId == planId && job.status.blocking

def busy : Failure :=
  .app 409
    "Managed replication is pending, active or uncertain. Resolve it before changing or removing its resources."

/-! ## Destinations -/

def insertDestination (binding : Destination) (now : Nat) : Except Failure Tables := do
  refuseIf (invalidIdentity binding) (.app 400 "Invalid replica repository identity.")
  refuseIf (db.destinations.any fun other => destinationsOverlap other.toDestination binding)
    (.app 409 "Replica repository prefix overlaps an existing or retained destination.")
  refuseIf (db.destinations.any fun other =>
    other.planId == binding.planId && other.replicationId == binding.replicationId) .constraint
  return { db with
    destinations :=
      db.destinations ++ [{ { binding with initState := .uninitialized } with createdAt := now }] }

/-- `planOwned` and `exported` are what `assertReplicaNotPlanOwned` and
`assertExportRepositoryScope` answer. -/
def reserveDestination (binding : Destination) (planOwned exported : Except Failure Unit)
    (now : Nat) : Except Failure Tables :=
  do
  planOwned
  exported
  match getDestination db binding.fingerprint with
  | some old => do
      refuseIf (ownershipChanged old.toDestination binding)
        (.app 409 "Replica repository ownership changed.")
      return db
  | none => insertDestination db binding now

/-! ## Jobs -/

def unverified (binding : Binding) : Bool :=
  ! [binding.sourceSnapshotId, binding.sourceRepositoryConfigId, binding.sourceTreeId,
    binding.sourceBindingHash, binding.destinationFingerprint].all fullId

/-- The destination is not there, is another plan's or replica's, or was given up. -/
def unreserved (binding : Binding) (destination : Option ManagedReplicationDestination) : Bool :=
  match destination with
  | none => true
  | some row =>
      row.planId != binding.planId || row.replicationId != binding.replicationId ||
      row.initState == .detached

def insertJob (input : ManagedReplicationEnqueue) (now : Nat) : Except Failure Tables := do
  refuseIf (db.jobs.any fun job => job.id == input.id) .constraint
  return { db with jobs := db.jobs ++ [{ input with updatedAt := now }] }

/-- `sourceBound` is whether the completed backup is still bound to its source. -/
def enqueue (input : ManagedReplicationEnqueue) (sourceBound : Bool) (now : Nat) :
    Except Failure Tables := do
  refuseIf (unverified input.binding)
    (.app 409 "Replication requires verified full source and destination identity.")
  refuseIf (!sourceBound) (.app 409 "Completed backup source binding is no longer valid.")
  refuseIf (unreserved input.binding (getDestination db input.binding.destinationFingerprint))
    (.app 409 "Replica destination is not reserved for this plan.")
  match db.jobs.find? fun job =>
      job.binding.backupId == input.binding.backupId &&
      job.binding.replicationId == input.binding.replicationId with
  | some old => do
      refuseIf (old.binding != input.binding) (.app 409 "Replication immutable binding changed.")
      return db
  | none => insertJob db input now

def hexDigit (ch : Char) : Bool := ch.isDigit || ('a' ≤ ch && ch ≤ 'f')

/-- `/^[a-f0-9]{48,64}$/` -/
def validToken (token : String) : Bool :=
  token.toList.all hexDigit && 48 ≤ token.toList.length && token.toList.length ≤ 64

def claimRow (ownerToken : String) (now : Nat) (job : ManagedReplicationJob) :
    ManagedReplicationJob :=
  { job with status := .running, ownerToken := some ownerToken,
             attempts := job.attempts + 1, updatedAt := now }

/-- Only a pending job, and only when no job holds the slot. -/
def claim (id ownerToken : String) (now : Nat) :
    Except Failure (Tables × Option ManagedReplicationJob) := do
  refuseIf (!validToken ownerToken) (.app 400 "Invalid executor token.")
  let cond := fun (job : ManagedReplicationJob) => job.id == id && job.status == .pending
  if db.jobs.any fun job => job.status.holdsSlot then return (db, none)
  else
    return ({ db with jobs := Table.update db.jobs cond (claimRow ownerToken now) },
      (db.jobs.find? cond).map (claimRow ownerToken now))

def owns (fingerprint ownerToken : String) : Bool :=
  db.jobs.any fun job =>
    job.binding.destinationFingerprint == fingerprint && job.ownerToken == some ownerToken &&
    job.status == .running

/-- A conditional update of the state of a destination; whether a row changed. -/
def advance (fingerprint : String) (state : InitState)
    (set : ManagedReplicationDestination → ManagedReplicationDestination) : Tables × Bool :=
  let cond := fun (row : ManagedReplicationDestination) =>
    row.fingerprint == fingerprint && row.initState == state
  ({ db with destinations := Table.update db.destinations cond set }, db.destinations.any cond)

def beginRow (row : ManagedReplicationDestination) : ManagedReplicationDestination :=
  { row with initState := .initializing }

def readyRow (repositoryId : String) (row : ManagedReplicationDestination) :
    ManagedReplicationDestination :=
  { row with initState := .ready, actualRepositoryId := some repositoryId }

def beginInitialization (fingerprint ownerToken : String) : Tables × Bool :=
  if owns db fingerprint ownerToken then advance db fingerprint .uninitialized beginRow
  else (db, false)

def finalizeInitialization (fingerprint ownerToken repositoryId : String) : Tables × Bool :=
  if fullId repositoryId && owns db fingerprint ownerToken then
    advance db fingerprint .initializing (readyRow repositoryId)
  else (db, false)

inductive Outcome where
  | completed
  | failed
  | uncertain
  | cancelled
  deriving DecidableEq

def Outcome.status : Outcome → Status
  | completed => .completed
  | failed => .failed
  | uncertain => .uncertain
  | cancelled => .cancelled

structure Result where
  status : Outcome
  destinationSnapshotId : Option String := none
  failureCode : Option String := none
  lastErrorCode : Option String := none

def nonempty (text : Option String) : Option String := text.filter fun held => !held.isEmpty

/-- `result.failureCode || result.lastErrorCode || null` -/
def Result.code (result : Result) : Option String :=
  (nonempty result.failureCode).or (nonempty result.lastErrorCode)

/-- `/^[a-z][a-z0-9-]{0,79}$/` -/
def validCode (code : String) : Bool :=
  Pattern.headed Char.isLower (fun ch => ch.isLower || ch.isDigit || ch == '-') code &&
    code.toList.length ≤ 80

def finishRow (result : Result) (now : Nat) (job : ManagedReplicationJob) : ManagedReplicationJob :=
  { job with
    status := result.status.status
    destinationSnapshotId := nonempty result.destinationSnapshotId
    lastErrorCode := result.code
    verifiedAt := if result.status == .completed then some now else none
    updatedAt := now
    ownerToken := if result.status == .uncertain then job.ownerToken else none }

def finish (id ownerToken : String) (result : Result) (now : Nat) :
    Except Failure (Tables × Bool) := do
  refuseIf (result.status == .completed && !fullId (result.destinationSnapshotId.getD ""))
    (.app 409 "Replica completion requires an exact verified snapshot.")
  refuseIf (result.code.any fun code => !validCode code)
    (.app 400 "Invalid replication failure category.")
  let cond := fun (job : ManagedReplicationJob) =>
    job.id == id && job.ownerToken == some ownerToken && job.status == .running
  return ({ db with jobs := Table.update db.jobs cond (finishRow result now) }, db.jobs.any cond)

/-- The job, or the initialisation of its destination, may still be going on. -/
def unresolved (job : Option ManagedReplicationJob) : Bool :=
  job.any (fun held => held.status == .uncertain) ||
    (getDestination db ((job.map fun held => held.binding.destinationFingerprint).getD "")).any
    fun row =>
      [InitState.initializing, .uncertain, .detached].contains row.initState

def retryRow (now : Nat) (job : ManagedReplicationJob) : ManagedReplicationJob :=
  { job with status := .pending, lastErrorCode := none, updatedAt := now }

def retry (id : String) (now : Nat) : Except Failure (Tables × Bool) := do
  refuseIf (unresolved db (getById db id))
    (.app 409 "Uncertain execution requires operator verification; automatic replay is refused.")
  let cond := fun (job : ManagedReplicationJob) =>
    job.id == id && [Status.failed, .cancelled].contains job.status
  return ({ db with jobs := Table.update db.jobs cond (retryRow now) }, db.jobs.any cond)

def cancelRow (now : Nat) (job : ManagedReplicationJob) : ManagedReplicationJob :=
  { job with status := .cancelled, lastErrorCode := some "cancelled", updatedAt := now }

def cancelPending (id : String) (now : Nat) : Tables × Bool :=
  let cond := fun (job : ManagedReplicationJob) => job.id == id && job.status == .pending
  ({ db with jobs := Table.update db.jobs cond (cancelRow now) }, db.jobs.any cond)

def interruptRow (now : Nat) (job : ManagedReplicationJob) : ManagedReplicationJob :=
  { job with status := .uncertain, lastErrorCode := some "execution-interrupted", updatedAt := now }

def markInterrupted (now : Nat) : Tables :=
  { db with jobs := Table.update db.jobs (fun job => job.status == .running) (interruptRow now) }

def detachRow (row : ManagedReplicationDestination) : ManagedReplicationDestination :=
  { row with initState := .detached }

def detach (planId : String) (replicationId : Option String) : Except Failure Tables := do
  refuseIf (hasBlockingPlan db planId) busy
  let cond := fun (row : ManagedReplicationDestination) =>
    row.planId == planId && (nonempty replicationId).all fun id => row.replicationId == id
  return { db with destinations := Table.update db.destinations cond detachRow }

end ManagedReplicationStore

/-! ## Runs -/

inductive Call where
  | reserveDestination (binding : Destination) (planOwned exported : Except Failure Unit)
      (now : Nat)
  | enqueue (input : ManagedReplicationEnqueue) (sourceBound : Bool) (now : Nat)
  | claim (id ownerToken : String) (now : Nat)
  | beginInitialization (fingerprint ownerToken : String)
  | finalizeInitialization (fingerprint ownerToken repositoryId : String)
  | finish (id ownerToken : String) (result : ManagedReplicationStore.Result) (now : Nat)
  | retry (id : String) (now : Nat)
  | cancelPending (id : String) (now : Nat)
  | markInterrupted (now : Nat)
  | detach (planId : String) (replicationId : Option String)

/-- What successful calls told their callers. -/
inductive Event where
  | claimed (id ownerToken : String)
  | begun (fingerprint : String)
  | finalized (fingerprint repositoryId : String)
  deriving DecidableEq

/-- The tables and, oldest first, the events so far. -/
structure World where
  db : Tables
  log : List Event

def World.start : World := ⟨.empty, []⟩

/-- An event when the call changed a row. -/
def recorded (changed : Bool) (event : Event) : List Event := if changed then [event] else []

open ManagedReplicationStore in
/-- The tables after a call that did not throw, and its event. -/
def Call.run (db : Tables) : Call → Except Failure (Tables × List Event)
  | reserveDestination binding planOwned exported now =>
      (ManagedReplicationStore.reserveDestination db binding planOwned exported now).map (·, [])
  | enqueue input sourceBound now =>
      (ManagedReplicationStore.enqueue db input sourceBound now).map (·, [])
  | claim id ownerToken now =>
      (ManagedReplicationStore.claim db id ownerToken now).map fun reply =>
        (reply.1, recorded reply.2.isSome (.claimed id ownerToken))
  | beginInitialization fingerprint ownerToken =>
      let reply := ManagedReplicationStore.beginInitialization db fingerprint ownerToken
      .ok (reply.1, recorded reply.2 (.begun fingerprint))
  | finalizeInitialization fingerprint ownerToken repositoryId =>
      let reply :=
        ManagedReplicationStore.finalizeInitialization db fingerprint ownerToken repositoryId
      .ok (reply.1, recorded reply.2 (.finalized fingerprint repositoryId))
  | finish id ownerToken result now =>
      (ManagedReplicationStore.finish db id ownerToken result now).map fun reply => (reply.1, [])
  | retry id now => (ManagedReplicationStore.retry db id now).map fun reply => (reply.1, [])
  | cancelPending id now => .ok ((ManagedReplicationStore.cancelPending db id now).1, [])
  | markInterrupted now => .ok (ManagedReplicationStore.markInterrupted db now, [])
  | detach planId replicationId =>
      (ManagedReplicationStore.detach db planId replicationId).map (·, [])

/-- A call that throws changes nothing. -/
def World.step (w : World) (call : Call) : World :=
  match call.run w.db with
  | .error _ => w
  | .ok (db, events) => ⟨db, w.log ++ events⟩

def World.after (calls : List Call) : World := calls.foldl World.step .start

end Pluton.Replication
