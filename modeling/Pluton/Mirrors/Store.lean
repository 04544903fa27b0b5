-- SUMMARY: The mirrors of a backup and `BackupStore.updateMirrorStatus`, one step for each await.
import Pluton.Await.Chain

/-!
# Mirror updates

`updateMirrorStatus` of `backend/src/stores/BackupStore.ts`. Each call reads the backup
and writes the whole array of its mirrors back. The calls for one backup are chained: each
is a reaction to the promise of the one before, so that promise also decides whether the
call runs at all.
-/
namespace Pluton.Mirrors

open Await

/-! ## Mirrors -/

inductive MirrorStatus where
  | pending
  | started
  | completed
  | failed
  deriving DecidableEq

/-- An optional field that is null counts as absent. -/
structure BackupMirror where
  replicationId : String
  storageId : String
  storageName : String
  storagePath : String
  storageType : String
  status : MirrorStatus
  started : Option Nat := none
  ended : Option Nat := none
  error : Option String := none
  size : Option Nat := none
  sourceSnapshotId : Option String := none
  snapshotId : Option String := none
  attempts : Option Nat := none
  lastErrorCode : Option String := none
  verifiedAt : Option Nat := none
  deriving DecidableEq

/-- `Partial<BackupMirror>`: the fields that are there, an optional one also as undefined. -/
structure MirrorUpdate where
  replicationId : Option String := none
  storageId : Option String := none
  storageName : Option String := none
  storagePath : Option String := none
  storageType : Option String := none
  status : Option MirrorStatus := none
  started : Option (Option Nat) := none
  ended : Option (Option Nat) := none
  error : Option (Option String) := none
  size : Option (Option Nat) := none
  sourceSnapshotId : Option (Option String) := none
  snapshotId : Option (Option String) := none
  attempts : Option (Option Nat) := none
  lastErrorCode : Option (Option String) := none
  verifiedAt : Option (Option Nat) := none

/-- `{ ...mirror, ...update }` -/
def BackupMirror.spread (mirror : BackupMirror) (update : MirrorUpdate) : BackupMirror where
  replicationId := update.replicationId.getD mirror.replicationId
  storageId := update.storageId.getD mirror.storageId
  storageName := update.storageName.getD mirror.storageName
  storagePath := update.storagePath.getD mirror.storagePath
  storageType := update.storageType.getD mirror.storageType
  status := update.status.getD mirror.status
  started := update.started.getD mirror.started
  ended := update.ended.getD mirror.ended
  error := update.error.getD mirror.error
  size := update.size.getD mirror.size
  sourceSnapshotId := update.sourceSnapshotId.getD mirror.sourceSnapshotId
  snapshotId := update.snapshotId.getD mirror.snapshotId
  attempts := update.attempts.getD mirror.attempts
  lastErrorCode := update.lastErrorCode.getD mirror.lastErrorCode
  verifiedAt := update.verifiedAt.getD mirror.verifiedAt

/-- The mirror of a replication that had none. -/
def BackupMirror.fresh (replicationId : String) : BackupMirror where
  replicationId := replicationId
  storageId := ""
  storageName := ""
  storagePath := ""
  storageType := ""
  status := .pending

structure MirrorCall where
  replicationId : String
  update : MirrorUpdate

/-- The array that a call writes for the one it has read. -/
def MirrorCall.apply (call : MirrorCall) (mirrors : List BackupMirror) : List BackupMirror :=
  if mirrors.any fun mirror => mirror.replicationId == call.replicationId then
    mirrors.map fun mirror =>
      if mirror.replicationId == call.replicationId then mirror.spread call.update else mirror
  else mirrors ++ [(BackupMirror.fresh call.replicationId).spread call.update]

/-! ## Calls -/

/-- A call that runs waits for its read or for its write. -/
inductive Running where
  | reading
  | writing (mirrors : List BackupMirror)
  deriving DecidableEq

/-- How a call settles: `absent` found no backup, `passedOn` is the rejection of the call
before it. -/
inductive Outcome where
  | updated
  | absent
  | readFailed
  | writeFailed
  | passedOn
  deriving DecidableEq

/-- The promise of the call is rejected. -/
def Outcome.rejects : Outcome → Bool
  | .updated => false
  | .absent => false
  | .readFailed => true
  | .writeFailed => true
  | .passedOn => true

/-- The mirrors of the backup, when it is there, and the chain of its calls. -/
structure Store where
  row : Option (List BackupMirror)
  chain : Chain MirrorCall Running Outcome

inductive Label where
  | updateMirrorStatus (call : MirrorCall)
  | turn (i : Nat)
  | getById (i : Nat) (ok : Bool)
  | update (i : Nat) (ok : Bool)
  | cleanup (i : Nat)

/-- A call that is made, and not a step of one. -/
def Label.isCall : Label → Bool
  | .updateMirrorStatus _ => true
  | .turn _ => false
  | .getById _ _ => false
  | .update _ _ => false
  | .cleanup _ => false

namespace Store

variable (s : Store)

def setPhase (i : Nat) (phase : LinkPhase Running Outcome) : Store :=
  { s with chain := s.chain.setPhase i phase }

/-- The call waits for one that was rejected. -/
def follows (link : Link MirrorCall Running Outcome) : Bool :=
  link.before.any fun j => (s.chain.outcomeAt j).any Outcome.rejects

/-- `prev.then(..)`: the callback runs when `prev` is fulfilled; a rejection passes it by. -/
def turn (i : Nat) : Store :=
  match s.chain.ready i with
  | some link =>
      if s.follows link then s.setPhase i (.settled .passedOn) else s.setPhase i (.running .reading)
  | none => s

def getById (i : Nat) (ok : Bool) : Store :=
  match s.chain.links[i]? with
  | some ⟨call, _, .running .reading⟩ =>
      if ok then
        match s.row with
        | none => s.setPhase i (.settled .absent)
        | some mirrors => s.setPhase i (.running (.writing (call.apply mirrors)))
      else s.setPhase i (.settled .readFailed)
  | _ => s

def update (i : Nat) (ok : Bool) : Store :=
  match s.chain.links[i]? with
  | some ⟨_, _, .running (.writing mirrors)⟩ =>
      if ok then { s.setPhase i (.settled .updated) with row := s.row.map fun _ => mirrors }
      else s.setPhase i (.settled .writeFailed)
  | _ => s

def step (s : Store) : Label → Store
  | .updateMirrorStatus call => { s with chain := s.chain.enqueue call }
  | .turn i => s.turn i
  | .getById i ok => s.getById i ok
  | .update i ok => s.update i ok
  | .cleanup i => { s with chain := s.chain.release i }

def start (row : Option (List BackupMirror)) : Store := ⟨row, .empty⟩

/-- The state after a run, over a backup whose mirrors are `row`. -/
def run (row : Option (List BackupMirror)) (ls : List Label) : Store := ls.foldl step (start row)

end Store

end Pluton.Mirrors
