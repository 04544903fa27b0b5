-- SUMMARY: The restore service and the recovery tests as one system, interleaved at awaits.
import Pluton.DatabaseRestore.Dispatch

/-!
# The service of database restores

`create`, `delete`, `inspect`, `tick`, `execute`, `cleanup`, `recoverInterrupted` and
`shutdown` of `backend/src/services/DatabaseRestoreService.ts` over the tables. Awaits in a
row that nothing happens between are one await here; the abort signal makes a promise
reject. `operator` writes neither table, and `delete` and `recoverInterrupted` go on with a
`tick`. The recovery tests take part with the transactions of their store.
-/
namespace Pluton.DatabaseRestore

open EStateM

/-! ## The running operation -/

/-- Where `execute`, `cleanup` or `inspect` waits. -/
inductive Work where
  /-- Up to the check after the artifact is validated. -/
  | preparing (row : Restore)
  /-- Up to the check before the import. -/
  | admitting (row : Restore)
  | importing (row : Restore)
  /-- The workspace is removed after the import. -/
  | withdrawing (row : Restore)
  /-- Up to the removal of the database. -/
  | cleaning (row : Restore)
  | removing (row : Restore)
  | binding (row : Restore)
  | emptying (row : Restore)
  | requesting (row : Restore)
  /-- The workspace is removed after a failed cleanup. -/
  | clearing (row : Restore)
  | inspecting (id : String)
  /-- The promise is settled, and `running` is still set. -/
  | settled (id : String)
  deriving DecidableEq

def Work.id : Work → String
  | .preparing row | .admitting row | .importing row | .withdrawing row | .cleaning
      row | .removing row | .binding row
  | .emptying row | .requesting row | .clearing row => row.id
  | .inspecting id | .settled id => id

/-- The operation may still write the row. -/
def Work.owns : Work → Bool
  | .inspecting _ | .settled _ => false
  | _ => true

variable (a : Answers) (row : Restore)

/-- The `catch` of `cleanup`, with a directory that is still to be removed. -/
def caughtCleanup (directory : Bool) : Sync Work := do
  let _ ← updated row ({ · with status := .cleanupRequired, cleanup := .uncertain })
  return if directory then .clearing row else .settled row.id

/-- The `catch` of `execute`, which goes on with `cleanup`. -/
def caughtExecute : Sync Work := do
  let latest ← updated row ({ · with cancelRequested := true, cleanup := .requested })
  return .cleaning latest

/-- `this.store.get(row.id)?.cancelRequested` -/
def isCancelled : Sync Bool := return ((← get).get row.id).any (·.cancelRequested)

def afterPreparing : Sync Work := do
  if !a.resolved || (← isCancelled row) then caughtExecute row
  else return .admitting row

def afterAdmitting : Sync Work := do
  if !a.resolved || (← get).busy a.elsewhere row.id || row.expiresAt ≤ a.now then caughtExecute row
  else return .importing row

/-- The lease that the importer of a row asks for. -/
def Restore.importLease (row : Restore) (database : String) : Lease :=
  { restoreId := row.id, targetId := row.targetId, database, ownerToken := row.ownerToken,
    state := .intended }

def afterImporting : Sync Work := do
  match a.importer with
  | .stage stage =>
      let _ ← updated row ({ · with stage })
      return .importing row
  | .addLease database =>
      match ← observe (addLease (row.importLease database)) with
      | .ok _ => return .importing row
      | .error _ => caughtExecute row
  | .leaseState state =>
      modify (·.leaseState row.id state)
      return .importing row
  | .finished =>
      if (← isCancelled row) || row.expiresAt ≤ a.now then caughtExecute row
      else return .withdrawing row
  | .removeLease | .failed => caughtExecute row

def afterWithdrawing : Sync Work := do
  if a.resolved then
    let _ ← updated row ({ · with status := .active, stage := "active",
                                  completedAt := some a.now, cleanup := .none })
    return .settled row.id
  else caughtExecute row

def afterCleaning : Sync Work := do
  if !a.resolved then caughtCleanup row a.directory
  else if row.encryptedApproval then return .removing row
  else if row.mode = .internal then return .binding row
  else return .emptying row

def afterRemoving : Sync Work := do
  match a.importer with
  | .removeLease =>
      modify (·.removeLease row.id)
      return .removing row
  | .finished => return .emptying row
  | _ => caughtCleanup row true

/-- A target that has appeared is bound for the next attempt; the cleanup fails either way. -/
def afterWorkBinding : Sync Work := do
  if a.resolved then
    match ← observe (bindApproval row.id a.approval) with
    | .ok _ => caughtCleanup row true
    | .error _ => caughtCleanup row true
  else caughtCleanup row true

def afterEmptying : Sync Work := do
  if !a.resolved then caughtCleanup row true
  else if row.mode = .internal then
    let latest ← updated row
      ({ · with status := .cleanupRequired, stage := "operator-cleanup",
                cleanup := .infrastructurePending })
    return .requesting latest
  else
    match ← observe (finishDeleted row.id) with
    | .ok _ => return .settled row.id
    | .error _ => caughtCleanup row false

def afterRequesting : Sync Work := do
  if a.resolved then return .settled row.id else caughtCleanup row false

def afterClearing : Sync Work := do
  if a.resolved then return .settled row.id
  else
    let _ ← updated row ({ · with status := .cleanupRequired, cleanup := .uncertain })
    return .settled row.id

/-- From an await of the running operation to the next one. -/
def Work.resume (a : Answers) : Work → Sync Work
  | .preparing row => afterPreparing a row
  | .admitting row => afterAdmitting a row
  | .importing row => afterImporting a row
  | .withdrawing row => afterWithdrawing a row
  | .cleaning row => afterCleaning a row
  | .removing row => afterRemoving a row
  | .binding row => afterWorkBinding a row
  | .emptying row => afterEmptying a row
  | .requesting row => afterRequesting a row
  | .clearing row => afterClearing a row
  | .inspecting id | .settled id => return .settled id

/-! ## The system -/

structure World where
  db : Db := {}
  /-- `ticking`: where the dispatcher waits, and the rows that are left. -/
  dispatch : Option (Place × List Restore) := none
  running : Option Work := none
  stopping : Bool := false
  deriving DecidableEq

inductive Label where
  | create (row : Restore) (admitted : Bool) (a : Answers)
  | delete (id : String)
  | inspect (id : String) (a : Answers)
  | tick (a : Answers)
  | resumeDispatch (a : Answers)
  | resumeRunning (a : Answers)
  | recoverInterrupted (a : Answers)
  | shutdown
  /-- The process ends and starts again. -/
  | restart
  | enqueue (bound : Bool) (row : RecoveryTest)
  | claimTest (elsewhere pendingInternal : Bool)
  | requestCancellation (id : String)
  | interrupted
  | finishTest (id : String) (status : TestStatus)

/-- The row of a new restore, whose id is random and not empty. -/
def newRestore (a : Answers) (row : Restore) : Restore :=
  { id := row.id
    mode := row.mode
    targetId := if row.mode = .internal then row.id else row.targetId
    ownerToken := row.ownerToken
    status := if row.mode = .internal then .provisioningRequired else .queued
    stage :=
      if row.mode = .internal ∧ a.automatic then "checking-resources" else "operator-provisioning"
    createdAt := row.createdAt
    expiresAt := row.expiresAt }

/-- `create`, once everything it awaits before has let it pass. -/
def createRestore (a : Answers) (admitted : Bool) (row : Restore) : Sync Unit := do
  create admitted (newRestore a row)
  if row.mode = .custom then bindApproval row.id a.approval

namespace World

variable (s : World)

/-- What the dispatcher leaves: it waits, it is over, or it has started an operation. -/
def dispatched (result : EStateM.Result String Db Progress) : World :=
  match result with
  | .ok (.waiting place rows) db => { s with db, dispatch := some (place, rows) }
  | .ok (.claimed row) db =>
      { s with db, dispatch := none,
               running := some (if row.cancelRequested then .cleaning row else .preparing row) }
  | .ok .finished db => { s with db, dispatch := none }
  | .error _ db => { s with db, dispatch := none }

/-- The deletion of the restore that is at work, when it is over its time. -/
def expireRunning (now : Nat) : World :=
  match s.running with
  | none => s
  | some work =>
      match s.db.get work.id with
      | some row => if row.expiresAt ≤ now then { s with db := s.db.requestDelete row.id } else s
      | none => s

def tick (a : Answers) : World :=
  let s := s.expireRunning a.now
  if s.running.isSome ∨ s.stopping ∨ s.dispatch.isSome then s
  else s.dispatched (loop a (s.db.pending a.retained) s.db)

def resumeDispatch (a : Answers) : World :=
  match s.dispatch with
  | some (place, rows) => s.dispatched (resumeLoop a place rows s.db)
  | none => s

def resumeRunning (a : Answers) : World :=
  match s.running with
  | none => s
  | some (.settled _) => { s with running := none }
  | some work =>
      match work.resume a s.db with
      | .ok work db => { s with db, running := some work }
      | .error _ db =>
          { s with
            db :=
              db.update work.id ({ · with status := .cleanupRequired, cleanup := .uncertain,
                                          cancelRequested := true })
            running := some (.settled work.id) }

def inspect (id : String) (a : Answers) : World :=
  match s.db.get id with
  | none => s
  | some row =>
      if row.expiresAt ≤ a.now ∨ row.cancelRequested ∨ row.status ≠ .active then s
      else if s.running.isSome ∨ s.dispatch.isSome ∨ s.db.busy a.elsewhere then s
      else { s with running := some (.inspecting id) }

def shutdown : World :=
  match s.running with
  | none => { s with stopping := true }
  | some work =>
      { s with
        stopping := true
        db :=
          if (s.db.get work.id).any (·.status == .importing) then
            s.db.requestDelete work.id
          else s.db }

def step : Label → World
  | .create row admitted a =>
      if row.id = "" then s else { s with db := (createRestore a admitted row).after s.db }
  | .delete id => { s with db := s.db.requestDelete id }
  | .inspect id a => s.inspect id a
  | .tick a => s.tick a
  | .resumeDispatch a => s.resumeDispatch a
  | .resumeRunning a => s.resumeRunning a
  | .recoverInterrupted a => ({ s with db := s.db.recoverInterrupted } : World).tick a
  | .shutdown => s.shutdown
  | .restart => { db := s.db }
  | .enqueue bound row => { s with db := s.db.enqueue bound row }
  | .claimTest elsewhere pendingInternal =>
      { s with db := s.db.claimTest elsewhere pendingInternal }
  | .requestCancellation id => { s with db := s.db.requestCancellation id }
  | .interrupted => { s with db := s.db.interrupted }
  | .finishTest id status => { s with db := s.db.finishTest id status }

end World

end Pluton.DatabaseRestore
