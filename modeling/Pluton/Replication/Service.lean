-- SUMMARY: The worker that claims replication jobs, runs them and projects them onto their backup.
import Mathlib.Data.List.Sort
import Pluton.Effect
import Pluton.Replication.Store

/-!
# The replication service

`ManagedReplicationService.runTick`. Each call of a collaborator is numbered, and what
it answers may depend on its number, so it may throw at one call and not at another.
The store of the jobs is the real one; its reads and `claim` may throw besides.
-/
namespace Pluton.Replication.Service

open EStateM
open Namespaces (InitState)

/-! ## Data -/

/-- What is thrown: a `ManagedReplicationError`, an `AppError`, or anything else. -/
inductive Thrown where
  | replication (code : String)
  | app (statusCode : Nat)
  | other

def code : Thrown → String
  | .replication code => code
  | .app statusCode => "admission-" ++ toString statusCode
  | .other => "execution-failed"

def thrownOf : Namespaces.Failure → Thrown
  | .app statusCode _ => .app statusCode
  | _ => .other

structure PlanReplicationStorage where
  replicationId : String
  storageId : String
  storagePath : String
  storageType : String
  storageName : String

structure PlanReplicationSettings where
  enabled : Bool
  storages : List PlanReplicationStorage

/-- What `source` answers, as far as the worker reads it. -/
structure Context where
  bindingHash : String
  repositoryId : String
  agentId : String
  storageId : String
  storagePath : String
  snapshotId : String
  replication : Option PlanReplicationSettings

structure Proof where
  repositoryConfigId : String
  tree : String

structure Storage where
  name : String
  type : Option String

inductive MirrorStatus where
  | pending
  | started
  | completed
  | failed

structure BackupMirror where
  replicationId : String
  storageId : String
  storageName : String
  storageType : String
  storagePath : String
  status : MirrorStatus
  error : Option String := none
  sourceSnapshotId : Option String := none
  snapshotId : Option String := none
  attempts : Option Nat := none
  lastErrorCode : Option String := none
  verifiedAt : Option Nat := none

structure Backup where
  planId : Option String
  mirrors : List BackupMirror

/-- The two callbacks that `executor.copy` may use. -/
inductive Use where
  | beginInitialization
  | bindRepository (repositoryId : String)

/-- The collaborators: what the call of a number answers. -/
structure Env where
  stopping : Nat → Bool
  token : Nat → String
  now : Nat → Nat
  /-- Why the controller was aborted by then, if it was. -/
  aborted : Nat → Option String
  listRunnable : Nat → Except Thrown Unit
  listByBackup : Nat → Except Thrown Unit
  claim : Nat → Except Thrown Unit
  getBackup : Nat → String → Except Thrown (Option Backup)
  getPlan : Nat → String → Except Thrown (Option (Option PlanReplicationSettings))
  getStorage : Nat → String → Except Thrown (Option Storage)
  updateBackup : Nat → String → List BackupMirror → Except Thrown Unit
  source : Nat → String → Except Thrown Context
  /-- `canonicalS3RepositoryIdentity(storage, path).fingerprint` -/
  identity : Nat → Storage → String → Except Thrown String
  /-- `destinationOptions` and `trustEnvironment` -/
  access : Nat → Storage → Except Thrown Unit
  inspectSource : Nat → Context → Except Thrown Proof
  /-- The callbacks that the executor uses, and what it then answers: a snapshot id. -/
  copy : Nat → Context → List Use × Except Thrown String

/-- What the worker did that its outcome depends on. -/
inductive Act where
  | claimed (id : String)
  | announced (id : String) (done : Bool)
  | settled (id : String) (done : Bool)

structure Tick where
  db : Tables
  /-- The keys of the map `active`. -/
  active : List String
  calls : Nat
  log : List Act

abbrev Exec (α : Type) := EStateM Thrown Tick α

/-- A call of a collaborator takes the next number. -/
def ask {α : Type} (answer : Nat → Except Thrown α) : Exec α := do
  let tick ← get
  set { tick with calls := tick.calls + 1 }
  MonadExcept.ofExcept (answer tick.calls)

def note (act : Act) : Exec Unit := modify fun tick => { tick with log := tick.log ++ [act] }

variable (env : Env)

/-! ## Projection -/

/-- `ORDER BY created_at,id` -/
def olderJob (a b : ManagedReplicationJob) : Bool :=
  decide (a.createdAt < b.createdAt) || a.createdAt == b.createdAt && decide (a.id ≤ b.id)

def jobsByBackup (db : Tables) (backupId : String) : List ManagedReplicationJob :=
  (db.jobs.filter fun job => job.binding.backupId == backupId).insertionSort fun a b => olderJob a b

def runnableJobs (db : Tables) : List ManagedReplicationJob :=
  ((db.jobs.filter fun job => job.status == .pending).insertionSort fun a b =>
    olderJob a b).take 100

def mirrorStatus : Status → MirrorStatus
  | .pending => .pending
  | .running => .started
  | .completed => .completed
  | .failed | .uncertain | .cancelled => .failed

/-- `first || second` for texts -/
def nonemptyOr (first : Option String) (second : String) : String :=
  (ManagedReplicationStore.nonempty first).getD second

def rowMirror (row : ManagedReplicationJob) (storage : Option Storage) : BackupMirror where
  replicationId := row.binding.replicationId
  storageId := row.binding.destinationStorageId
  storageName := nonemptyOr (storage.map fun held => held.name) "Unavailable storage"
  storageType := nonemptyOr (storage.bind fun held => held.type) "s3compatible"
  storagePath := row.binding.destinationStoragePath
  status := mirrorStatus row.status
  error := (ManagedReplicationStore.nonempty row.lastErrorCode).map fun held =>
    "Replication needs attention (" ++ held ++ ")."
  sourceSnapshotId := some row.binding.sourceSnapshotId
  snapshotId := row.destinationSnapshotId
  attempts := some row.attempts
  lastErrorCode := row.lastErrorCode
  verifiedAt := row.verifiedAt

def replicaMirror (replica : PlanReplicationStorage) (status : MirrorStatus) : BackupMirror where
  replicationId := replica.replicationId
  storageId := replica.storageId
  storageName := replica.storageName
  storageType := replica.storageType
  storagePath := replica.storagePath
  status := status

def missingMirror (backup : Option Backup) (admissionFailureCode : Option String)
    (replica : PlanReplicationStorage) : BackupMirror :=
  match ManagedReplicationStore.nonempty admissionFailureCode with
  | some code => { replicaMirror replica .failed with
      error := some ("Replication admission failed (" ++ code ++ ")."), lastErrorCode := some code }
  | none =>
      let previous := (backup.bind fun held => held.mirrors.find? fun mirror =>
        mirror.replicationId == replica.replicationId && mirror.storageId == replica.storageId &&
          mirror.storagePath == replica.storagePath)
      previous.getD (replicaMirror replica .pending)

def missingMirrors (rows : List ManagedReplicationJob) (backup : Option Backup)
    (replication : Option PlanReplicationSettings) (admissionFailureCode : Option String) :
    List BackupMirror :=
  (((replication.map fun held => held.storages).getD []).filter fun replica =>
    !rows.any fun row => row.binding.replicationId == replica.replicationId).map
      (missingMirror backup admissionFailureCode)

def planOf (backup : Option Backup) : Exec (Option PlanReplicationSettings) :=
  match (backup.bind fun held => ManagedReplicationStore.nonempty held.planId) with
  | none => pure none
  | some planId => do
      let plan ← ask fun n => env.getPlan n planId
      return plan.join

def rowMirrors (rows : List ManagedReplicationJob) : Exec (List BackupMirror) :=
  match rows with
  | [] => pure []
  | row :: rest => do
      let storage ← ask fun n => env.getStorage n row.binding.destinationStorageId
      let mirrors ← rowMirrors rest
      return rowMirror row storage :: mirrors

def project (backupId : String) (admissionFailureCode : Option String) : Exec Unit := do
  ask env.listByBackup
  let tick ← get
  let rows := jobsByBackup tick.db backupId
  let backup ← ask fun n => env.getBackup n backupId
  let replication ← planOf env backup
  let mirrors ← rowMirrors env rows
  ask fun n => env.updateBackup n backupId (mirrors ++
    missingMirrors rows backup replication admissionFailureCode)

/-! ## One job -/

/-- `jobs.claim`, which may throw and then changes nothing. -/
def claim (id token : String) : Exec (Option ManagedReplicationJob) := do
  let now ← ask fun n => .ok (env.now n)
  ask env.claim
  let tick ← get
  match ManagedReplicationStore.claim tick.db id token now with
  | .error failure => throw (thrownOf failure)
  | .ok (db, none) => do
      set { tick with db := db }
      return none
  | .ok (db, some job) => do
      set { tick with db := db, log := tick.log ++ [Act.claimed job.id] }
      return some job

def finish (id token : String) (result : ManagedReplicationStore.Result) : Exec Unit := do
  let now ← ask fun n => .ok (env.now n)
  let tick ← get
  match ManagedReplicationStore.finish tick.db id token result now with
  | .error failure => throw (thrownOf failure)
  | .ok (db, _) => set { tick with db := db }

def use (fingerprint token : String) : Use → Exec Unit
  | .beginInitialization => modify fun tick =>
      { tick with db := (ManagedReplicationStore.beginInitialization tick.db fingerprint token).1 }
  | .bindRepository repositoryId => modify fun tick =>
      { tick with
        db :=
          (ManagedReplicationStore.finalizeInitialization tick.db fingerprint token repositoryId).1
          }

def copy (context : Context) (fingerprint token : String) : Exec String := do
  let tick ← get
  let (uses, outcome) := env.copy tick.calls context
  set { tick with calls := tick.calls + 1 }
  uses.forM (use fingerprint token)
  MonadExcept.ofExcept outcome

def sourceChanged (job : ManagedReplicationJob) (context : Context) : Bool :=
  context.bindingHash != job.binding.sourceBindingHash ||
    context.repositoryId != job.binding.repositoryId ||
    context.agentId != job.binding.agentId || context.storageId != job.binding.sourceStorageId ||
    context.storagePath != job.binding.sourceStoragePath ||
    context.snapshotId != job.binding.sourceSnapshotId

def destinationChanged (job : ManagedReplicationJob)
    (replication : Option PlanReplicationSettings) : Bool :=
  match replication with
  | none => true
  | some settings =>
      !settings.enabled ||
        match settings.storages.find? fun item =>
          item.replicationId == job.binding.replicationId with
        | none => true
        | some replica =>
            replica.storageId != job.binding.destinationStorageId ||
              replica.storagePath != job.binding.destinationStoragePath

def destinationStorage (job : ManagedReplicationJob) : Exec Storage := do
  match ← ask fun n => env.getStorage n job.binding.destinationStorageId with
  | none => throw (.replication "destination-binding-changed")
  | some storage => do
      let fingerprint ← ask fun n => env.identity n storage job.binding.destinationStoragePath
      refuseIf (fingerprint != job.binding.destinationFingerprint)
        (.replication "destination-binding-changed")
      return storage

def unowned (destination : Option ManagedReplicationDestination) : Bool :=
  destination.all fun row => row.initState == .detached

/-- The body of the `try`. -/
def execute (job : ManagedReplicationJob) (token : String) : Exec Unit := do
  let context ← ask fun n => env.source n job.binding.backupId
  refuseIf (sourceChanged job context) (.replication "source-binding-changed")
  refuseIf (destinationChanged job context.replication) (.replication "destination-binding-changed")
  let storage ← destinationStorage env job
  let tick ← get
  refuseIf
    (unowned (ManagedReplicationStore.getDestination tick.db job.binding.destinationFingerprint))
    (.replication "destination-unowned")
  let proof ← ask fun n => env.inspectSource n context
  refuseIf (proof.repositoryConfigId != job.binding.sourceRepositoryConfigId ||
    proof.tree != job.binding.sourceTreeId)
    (.replication "source-binding-changed")
  ask fun n => env.access n storage
  let snapshotId ← copy env context job.binding.destinationFingerprint token
  finish env job.id token { status := .completed, destinationSnapshotId := some snapshotId }

/-- Outcomes after which the durable claim is kept. -/
def fenced (code : String) : Bool := ["claim-lost", "execution-uncertain"].contains code

def failureCode (failure : Thrown) (aborted : Option String) : String :=
  if fenced (code failure) then code failure
  else if aborted == some "timeout" then "timeout"
  else code failure

def failureStatus (code : String) (destination : Option ManagedReplicationDestination)
    (aborted : Option String) :
    ManagedReplicationStore.Outcome :=
  if (destination.any fun row => row.initState == .initializing) || fenced code then .uncertain
  else if aborted.isSome && code != "timeout" then .cancelled
  else .failed

/-- The `catch`. -/
def settle (job : ManagedReplicationJob) (token : String) : Except Thrown Unit → Exec Unit
  | .ok () => pure ()
  | .error failure => do
      let reason ← ask fun n => .ok (env.aborted n)
      let code := failureCode failure reason
      let tick ← get
      let destination :=
        ManagedReplicationStore.getDestination tick.db job.binding.destinationFingerprint
      let aborted ← ask fun n => .ok (env.aborted n)
      let status := failureStatus code destination aborted
      let outcome ← observe (finish env job.id token { status := status, failureCode := some code })
      note (.settled job.id outcome.isOk)
      MonadExcept.ofExcept outcome

/-- `active.set` -/
def activate (id : String) : Exec Unit :=
  modify fun tick => { tick with active := if tick.active.contains id then tick.active
    else tick.active ++ [id] }

/-- `active.delete` -/
def deactivate (id : String) : Exec Unit :=
  modify fun tick => { tick with active := tick.active.filter fun other => other != id }

/-- The projection between the claim and the `try`. -/
def announce (job : ManagedReplicationJob) : Exec Unit := do
  let outcome ← observe (project env job.binding.backupId none)
  note (.announced job.id outcome.isOk)
  MonadExcept.ofExcept outcome

def perform (job : ManagedReplicationJob) (token : String) : Exec Unit := do
  activate job.id
  announce env job
  let outcome ← observe (execute env job token)
  let settled ← observe (settle env job token outcome)
  deactivate job.id
  project env job.binding.backupId none
  MonadExcept.ofExcept settled

/-! ## The worker -/

def visit : List ManagedReplicationJob → Exec Unit
  | [] => pure ()
  | pending :: rest => do
      if ← ask fun n => .ok (env.stopping n) then return
      let token ← ask fun n => .ok (env.token n)
      match ← claim env pending.id token with
      | none => visit rest
      | some job => do
          perform env job token
          visit rest

def runTick : Exec Unit := do
  ask env.listRunnable
  let tick ← get
  visit env (runnableJobs tick.db)

end Pluton.Replication.Service
