-- SUMMARY: `DatabaseRestoreService.dispatch`, cut at its awaits, with the row it goes on with.
import Pluton.DatabaseRestore.Store

/-!
# The dispatcher of database restores

`dispatch` of `backend/src/services/DatabaseRestoreService.ts` reads the rows once and goes
through them, one await after the other. A `Place` is an await with what the code keeps
over it, a `Flow` how a stretch of code between two awaits ends. The updates of
`error_code` are left out; nothing reads it.
-/
namespace Pluton.DatabaseRestore

open EStateM

/-- What the root-side operator reports. -/
structure Receipt where
  state : String
  observedAt : Nat
  deriving DecidableEq

/-- What an importer does next: it reports a stage, changes its lease, or ends. -/
inductive ImportStep where
  | stage (stage : String)
  | addLease (database : String)
  | leaseState (state : LeaseState)
  | removeLease
  | finished
  | failed

/-- What time it is and what everything else answers in one stretch of code: the other
tables, the records of the lifecycle, and the promise that was awaited. -/
structure Answers where
  now : Nat := 0
  elsewhere : Bool := false
  /-- `targets.automatic` is there. -/
  automatic : Bool := false
  /-- `targets.automatic.record(id)` is there. -/
  recorded : String → Bool := fun _ => false
  /-- The record is persistent and not removed. -/
  retained : String → Bool := fun _ => false
  /-- The credentials that are stored can be decrypted. -/
  decrypts : Bool := true
  /-- The awaited promise is resolved. -/
  resolved : Bool := true
  approval : Approval := {}
  receipt : Option Receipt := none
  targetState : String := "active"
  available : Bool := true
  absent : Bool := false
  /-- `assertNotSource` does not throw. -/
  notSource : Bool := true
  directory : Bool := true
  importer : ImportStep := .finished

/-- `targets.automatic?.record(id)` -/
def Answers.record (a : Answers) (id : String) : Bool := a.automatic && a.recorded id

/-! ## Awaits -/

/-- The awaits of the loop's body, in the order of the source. -/
inductive Place where
  | deletedReceipt
  | request (row : Restore)
  | persistent (row : Restore)
  | receipt (row : Restore)
  | recoverBinding (row : Restore) (receipt : Receipt)
  | recoverState (row : Restore) (receipt : Receipt)
  | capability (row : Restore)
  | targetState (row : Restore)
  | stateBinding (row : Restore) (state : String)
  | verifiedAbsent (row : Restore)
  | binding (row : Restore)
  | admission (row : Restore) (approval : Approval)
  deriving DecidableEq

/-- The row that the code goes on with. -/
def Place.row? : Place → Option Restore
  | .deletedReceipt => none
  | .request row | .persistent row | .receipt row | .recoverBinding row _ | .recoverState
      row _ | .capability row
  | .targetState row | .stateBinding row _ | .verifiedAbsent row | .binding
      row | .admission row _ => some row

inductive Flow where
  | wait (place : Place)
  /-- `continue` -/
  | skip
  | claimed (row : Restore)

/-- `row = this.store.update(..)` -/
def updated (row : Restore) (set : Restore → Restore) : Sync Restore :=
  return (← update row.id set).getD row

/-- `this.store.approval(row.id)` -/
def approval (a : Answers) (row : Restore) : Sync Unit := do
  refuseIf (!(((← get).get row.id).any (·.encryptedApproval) && a.decrypts))
    "target-credentials-unavailable"

variable (a : Answers) (row : Restore)

/-! ## The body of the loop, from its end to its start -/

def claimNext : Sync Flow := do
  if row.cleanup = .infrastructurePending then return .skip
  match ← claim a.now a.elsewhere row.id row.cancelRequested with
  | some claimed => return .claimed claimed
  | none => return .skip

/-- The provisioned target is approved: its binding is stored, and the row is queued. -/
def afterAdmission (approval : Approval) : Sync Flow := do
  if a.resolved && a.notSource then
    match ← observe (do
      bindApproval row.id approval
      updated row ({ · with status := .queued })) with
    | .ok row => claimNext a row
    | .error _ => return .skip
  else return .skip

def provision : Sync Flow :=
  if row.status = .provisioningRequired ∧ row.cancelRequested = false then
    return .wait (.binding row)
  else claimNext a row

def afterVerifiedAbsent : Sync Flow := do
  refuseIf (!a.resolved) "rejected"
  if a.absent then
    finishDeleted row.id
    return .skip
  else provision a row

def absence : Sync Flow := do
  if row.mode = .internal ∧ row.encryptedApproval = false ∧ row.cancelRequested ∧
    ((← get).lease row.id).isNone then
    return .wait (.verifiedAbsent row)
  else provision a row

def afterStateBinding (state : String) : Sync Flow := do
  if a.resolved ∧ row.cancelRequested = false ∧ (row.status = .active ∨ row.status = .stopped) ∧
    state ≠ "removed" then
    absence a (← updated row ({ · with status := if state = "stopped" then .stopped else .active }))
  else absence a row

/-- Unknown infrastructure is retained: whatever is thrown here is dropped. -/
def afterTargetState : Sync Flow := do
  if a.resolved then
    if a.targetState = "removed" ∧ row.cleanup = .infrastructurePending ∧
        ((← get).lease row.id).isNone ∧
        a.record row.id = false then
      match ← observe (finishDeleted row.id) with
      | .ok _ => return .skip
      | .error _ => absence a row
    else return .wait (.stateBinding row a.targetState)
  else absence a row

def approved : Sync Flow := do
  if row.mode = .internal ∧ row.encryptedApproval then
    match ← observe (approval a row) with
    | .ok _ => return .wait (.targetState row)
    | .error _ => absence a row
  else absence a row

def afterCapability : Sync Flow := do
  refuseIf (!a.resolved) "rejected"
  if a.available then approved a row else return .skip

/-- A target that is to be provisioned has to be ready, by a recent report. -/
def provisioned (receipt : Option Receipt) : Sync Flow :=
  if row.status = .provisioningRequired ∧ row.cancelRequested = false then
    if receipt.any fun receipt => receipt.state = "ready" ∧ a.now ≤ receipt.observedAt + 30000 then
      return .wait (.capability row)
    else return .skip
  else approved a row

/-- The end of what is done for a row with a record of the lifecycle. -/
def reported : Option Receipt → Sync Flow
  | some receipt => do
      if row.status = .provisioningRequired then
        provisioned a (← updated row ({ · with stage := receipt.state })) (some receipt)
      else provisioned a row (some receipt)
  | none => provisioned a row none

/-- The row and the lease still say that a validated database is there. -/
def recoverable (receipt : Receipt) (status : String) (latest : Restore) (lease : Lease) : Bool :=
  !latest.cancelRequested && a.now < latest.expiresAt &&
    latest.stage == "host-ownership-unverified" &&
    latest.completedAt.isSome && a.now ≤ receipt.observedAt + 30000 && a.targetState == status &&
    lease.state == .validated && lease.restoreId == latest.id &&
    lease.targetId == latest.targetId &&
    lease.ownerToken == latest.ownerToken && some lease.database == latest.database

def afterRecoverState (receipt : Receipt) : Sync Flow := do
  if a.resolved then
    match (← get).get row.id, (← get).lease row.id with
    | some latest, some lease =>
        if recoverable a receipt (if receipt.state = "stopped" then "stopped"
          else "active") latest lease then
          let row ← updated row fun row =>
            if receipt.state = "stopped" then
              { row with status := .stopped, stage := "stopped", cleanup := .none }
            else { row with status := .active, stage := "active", cleanup := .none }
          reported a row (some receipt)
        else return .skip
    | _, _ => return .skip
  else return .skip

def afterReceipt : Sync Flow := do
  refuseIf (!a.resolved) "rejected"
  match a.receipt with
  | none => reported a row none
  | some receipt =>
      if receipt.state = "removed" ∧ row.cancelRequested ∧ ((← get).lease row.id).isNone then
        finishDeleted row.id
        return .skip
      else if receipt.state = "cleanup-required" then
        let _ ← updated row fun stored =>
          if row.status = .provisioningRequired then
            { stored with stage := "host-ownership-unverified" }
          else { stored with stage := "host-ownership-unverified", status := .cleanupRequired,
                             cleanup := .uncertain }
        return .skip
      else if (receipt.state = "ready" ∨ receipt.state = "stopped") ∧
          row.stage = "host-ownership-unverified" ∧
          row.completedAt.isSome ∧ row.cancelRequested = false then
        match ← observe (approval a row) with
        | .ok _ => return .wait (.recoverBinding row receipt)
        | .error _ => return .skip
      else reported a row (some receipt)

def lifecycle : Sync Flow :=
  if row.mode = .internal ∧ a.record row.id then return .wait (.persistent row) else approved a row

def afterRequest : Sync Flow := do
  if row.expiresAt ≤ a.now ∧ row.cancelRequested = false then
    lifecycle a (← updated row ({ · with status := .expired, cancelRequested := true,
                                         cleanup := .requested }))
  else lifecycle a row

/-- The body of the loop up to its first await. -/
def body : Sync Flow :=
  if row.status = .deleted then return .wait .deletedReceipt
  else if row.mode = .internal ∧ row.stage = "checking-resources" ∧ a.automatic ∧
    a.record row.id = false then
    return .wait (.request row)
  else afterRequest a row

/-- From an await to the next one, or to the end of the body. -/
def resume (a : Answers) : Place → Sync Flow
  | .deletedReceipt => do
      refuseIf (!a.resolved) "rejected"
      return .skip
  | .request row => afterRequest a row
  | .persistent row => return .wait (.receipt row)
  | .receipt row => afterReceipt a row
  | .recoverBinding row receipt =>
      return if a.resolved then .wait (.recoverState row receipt) else .skip
  | .recoverState row receipt => afterRecoverState a row receipt
  | .capability row => afterCapability a row
  | .targetState row => afterTargetState a row
  | .stateBinding row state => afterStateBinding a row state
  | .verifiedAbsent row => afterVerifiedAbsent a row
  | .binding row => return if a.resolved then .wait (.admission row a.approval) else .skip
  | .admission row approval => afterAdmission a row approval

/-! ## The loop -/

/-- Where the dispatcher stands: waiting, with the rows that are left, or over, with the row
it has claimed. -/
inductive Progress where
  | waiting (place : Place) (rows : List Restore)
  | finished
  | claimed (row : Restore)

def loop (a : Answers) : List Restore → Sync Progress
  | [] => return .finished
  | row :: rows => do
      match ← body a row with
      | .wait place => return .waiting place rows
      | .skip => loop a rows
      | .claimed row => return .claimed row

def resumeLoop (a : Answers) (place : Place) (rows : List Restore) : Sync Progress := do
  match ← resume a place with
  | .wait place => return .waiting place rows
  | .skip => loop a rows
  | .claimed row => return .claimed row

end Pluton.DatabaseRestore
