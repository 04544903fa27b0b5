-- SUMMARY: The tables of database restores and recovery tests, with their operations.
import Pluton.Effect
import Pluton.Table

/-!
# Database restores and recovery tests

`backend/src/stores/DatabaseRestoreStore.ts` and the part of
`backend/src/stores/RecoveryTestStore.ts` that competes with it for the one database
workload. Each operation is one transaction, or one statement; the members of a row that
no operation and no caller decides by are left out.
-/
namespace Pluton.DatabaseRestore

open EStateM

/-! ## Rows -/

inductive Mode where
  | internal
  | custom
  deriving DecidableEq

inductive Status where
  | provisioningRequired
  | queued
  | importing
  | active
  | stopped
  | expired
  | deleting
  | cleanupRequired
  | deleted
  | failed
  | cancelled
  deriving DecidableEq

inductive Cleanup where
  | none
  | requested
  | databaseRemoved
  | infrastructurePending
  | verified
  | uncertain
  deriving DecidableEq

/-- `PersistentTargetApproval`, with the fingerprint of its text. -/
structure Approval where
  id : String := ""
  mode : Mode := .internal
  fingerprint : String := ""
  deriving DecidableEq

/-- A row of `persistent_database_restores`. -/
structure Restore where
  id : String
  mode : Mode
  targetId : String
  ownerToken : String
  targetFingerprint : Option String := none
  encryptedApproval : Bool := false
  database : Option String := none
  status : Status
  stage : String
  cleanup : Cleanup := .none
  createdAt : Nat
  completedAt : Option Nat := none
  expiresAt : Nat
  cancelRequested : Bool := false
  deriving DecidableEq

inductive LeaseState where
  | intended
  | created
  | validated
  deriving DecidableEq

/-- A row of `persistent_restore_import_leases`. -/
structure Lease where
  restoreId : String
  targetId : String
  database : String
  ownerToken : String
  state : LeaseState
  deriving DecidableEq

inductive TestStatus where
  | queued
  | running
  | passed
  | passedWithWarning
  | failed
  | cancelled
  deriving DecidableEq

/-- A row of `recovery_tests`; of its policy only whether it imports databases. -/
structure RecoveryTest where
  id : String
  planId : String
  automationKey : Option String := none
  databaseImport : Bool := true
  createdAt : Nat
  status : TestStatus := .queued
  cancelRequested : Bool := false
  deriving DecidableEq

structure Db where
  restores : List Restore := []
  leases : List Lease := []
  tests : List RecoveryTest := []
  deriving DecidableEq

/-- `status IN ('importing','deleting')` -/
def Status.isWorking (status : Status) : Bool := status = .importing ∨ status = .deleting

/-- `status IN ('queued','running')` -/
def TestStatus.isActive (status : TestStatus) : Bool := status = .queued ∨ status = .running

namespace Db

variable (db : Db)

def get (id : String) : Option Restore := db.restores.find? (·.id == id)

def lease (id : String) : Option Lease := db.leases.find? (·.restoreId == id)

/-- `busy`; `elsewhere` answers for the backups and restores that are in progress. -/
def busy (elsewhere : Bool) (exceptId : String := "") : Bool :=
  db.tests.any (·.status == .running) ||
    db.restores.any (fun row => row.status.isWorking && row.id != exceptId) || elsewhere

def update (id : String) (set : Restore → Restore) : Db :=
  { db with restores := Table.update db.restores (·.id == id) set }

/-- The rows of `pending`; `retained` answers for the lifecycle records that are not removed. -/
def pending (retained : String → Bool) : List Restore :=
  ((db.restores.filter fun row => row.status != .deleted || retained row.id).mergeSort
    fun row row' => row.createdAt ≤ row'.createdAt).take 200

/-- `requestDelete` -/
def requestDelete (id : String) : Db :=
  match db.get id with
  | none => db
  | some row =>
      if row.status = .deleted ∨ row.cleanup = .infrastructurePending then db
      else db.update id fun row =>
        { row with
          cancelRequested := true
          cleanup := .requested
          status := if row.status.isWorking then row.status else .cleanupRequired }

/-- `recoverInterrupted` -/
def recoverInterrupted : Db :=
  { db with
    restores := Table.update db.restores (·.status.isWorking) fun row =>
      { row with status := .cleanupRequired, cleanup := .uncertain, cancelRequested := true } }

def removeLease (id : String) : Db := { db with leases := db.leases.filter (·.restoreId != id) }

def leaseState (id : String) (state : LeaseState) : Db :=
  { db with leases := Table.update db.leases (·.restoreId == id) ({ · with state }) }

/-! ### Recovery tests -/

/-- `enqueue`; `bound` answers for the binding of the snapshot. The index of active plans
and the one of replay keys say what the two queries before the insert have checked. -/
def enqueue (bound : Bool) (row : RecoveryTest) : Db :=
  if bound = false ∨ db.tests.any (·.id == row.id) then db
  else if row.automationKey.isSome ∧ db.tests.any (·.automationKey == row.automationKey) then db
  else if db.tests.any (fun other => other.planId == row.planId && other.status.isActive) then db
  else { db with tests := db.tests ++ [{ row with status := .queued, cancelRequested := false }] }

/-- `claim` of `RecoveryTestStore`; `pendingInternal` answers for the sessions not released. -/
def claimTest (elsewhere pendingInternal : Bool) : Db :=
  if db.tests.any (·.status == .running) ∨ db.restores.any (·.status.isWorking) ∨ elsewhere then db
  else
    match Table.firstBy (·.createdAt) (fun row =>
      row.status == .queued && (!pendingInternal || !row.databaseImport))
      db.tests with
    | none => db
    | some row =>
        { db with
          tests :=
            Table.update db.tests (fun other => other.id == row.id && other.status == .queued)
            ({ · with status := .running }) }

def requestCancellation (id : String) : Db :=
  { db with
    tests := Table.update db.tests (fun row => row.id == id && row.status.isActive) fun row =>
      { row with cancelRequested := true,
                 status := if row.status = .queued then .cancelled else row.status } }

/-- `interrupted` -/
def interrupted : Db :=
  { db with
    tests := Table.update db.tests (·.status == .running) fun row =>
      { row with status := if row.cancelRequested then .cancelled else .failed } }

/-- The update that ends a test, or corrects its outcome later on. -/
def finishTest (id : String) (status : TestStatus) : Db :=
  if status.isActive then db
  else { db with tests := Table.update db.tests (·.id == id) ({ · with status }) }

end Db

/-! ## Operations that may throw -/

/-- A stretch of code between two awaits. A `DatabaseRestoreError` is thrown by its code. -/
abbrev Sync (α : Type) := EStateM String Db α

/-- `update`, which answers with the row. -/
def update (id : String) (set : Restore → Restore) : Sync (Option Restore) := do
  modify (·.update id set)
  return (← get).get id

def finishDeleted (id : String) : Sync Unit := do
  refuseIf ((← get).lease id).isSome "ownership-lease-unsafe"
  modify (·.update id fun row => { row with status := .deleted, cleanup := .verified,
                                            stage := "deleted", encryptedApproval := false })

/-- `bind` -/
def bindApproval (id : String) (approval : Approval) : Sync Unit := do
  match (← get).get id with
  | none => throw "target-binding-mismatch"
  | some row =>
      refuseIf (row.targetId != approval.id || row.mode != approval.mode) "target-binding-mismatch"
      refuseIf (row.targetFingerprint.any (· != approval.fingerprint)) "target-activation-changed"
      modify (·.update id fun row =>
        if row.encryptedApproval then row
        else { row with targetFingerprint := some approval.fingerprint, encryptedApproval := true })

/-- The statuses from which `claim` starts a cleanup. -/
def Status.isRemovable (status : Status) : Bool :=
  [Status.cleanupRequired, .expired, .cancelled, .failed, .active, .stopped].contains status

/-- `claim` -/
def claim (now : Nat) (elsewhere : Bool) (id : String) (cleanup : Bool) : Sync (Option Restore) :=
  do
  let db ← get
  if db.busy elsewhere then return none
  match db.get id with
  | none => return none
  | some row =>
      if cleanup then
        if row.status.isRemovable && row.cancelRequested then
          update id ({ · with status := .deleting, stage := "database-cleanup" })
        else return none
      else if row.status = .queued ∧ row.cancelRequested = false ∧ now < row.expiresAt then
        update id ({ · with status := .importing, stage := "snapshot-validation" })
      else return none

/-- `addLease` -/
def addLease (lease : Lease) : Sync Unit := do
  match (← get).get lease.restoreId with
  | none => throw "ownership-lease-unsafe"
  | some row =>
      refuseIf (row.ownerToken != lease.ownerToken || row.targetId != lease.targetId ||
        row.status != .importing ||
        ((← get).lease row.id).isSome) "ownership-lease-unsafe"
      modify fun db => ({ db with leases := db.leases ++ [lease] }).update row.id ({ · with
        database := some lease.database })

/-- The part of `create` in the transaction of the store; `admitted` answers for the plan,
the backup and the repository. -/
def create (admitted : Bool) (row : Restore) : Sync Unit := do
  let db ← get
  refuseIf (!admitted) "retained-restore-dependency"
  refuseIf (8 ≤ (db.restores.filter (·.status != .deleted)).length) "retained-restore-limit"
  refuseIf (db.restores.any fun other => other.id == row.id ||
    other.status != .deleted && other.targetId == row.targetId)
    "target-already-reserved"
  modify fun db => { db with restores := db.restores ++ [row] }

end Pluton.DatabaseRestore
