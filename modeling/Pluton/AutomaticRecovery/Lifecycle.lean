-- SUMMARY: The mailbox of one automatic recovery, one step for each await.
import Pluton.Await.Chain
import Pluton.Effect
import Pluton.Json
import Pluton.Pattern

/-!
# The recovery lifecycle mailbox

`AutomaticRecoveryLifecycle` of `backend/src/utils/automaticRecoveryLifecycle.ts`, for the
calls on one record. An intent commits in the table without an await; its request file is
written later, behind the writes of the intents before it. What comes from outside (other
tables, the file system, the receipts of the operator) is an argument of the step.
-/
namespace Pluton.AutomaticRecovery

open Await EStateM

/-! ## Records -/

inductive LifecycleAction where
  | provision
  | inspect
  | stop
  | resume
  | delete
  deriving DecidableEq

def LifecycleAction.text : LifecycleAction → String
  | .provision => "provision"
  | .inspect => "inspect"
  | .stop => "stop"
  | .resume => "resume"
  | .delete => "delete"

inductive LifecycleState where
  | requested
  | checkingResources
  | provisioningContainer
  | startingDatabase
  | ready
  | stopped
  | cleaningUp
  | removed
  | cleanupRequired
  deriving DecidableEq

inductive Mode where
  | persistent
  | disposable
  deriving DecidableEq

def Mode.text : Mode → String
  | .persistent => "persistent"
  | .disposable => "disposable"

structure Artifact where
  databaseId : String
  database : String
  sha256 : String
  bytes : Nat
  deriving DecidableEq

structure LifecycleBinding where
  id : String
  mode : Mode
  engine : String
  snapshotId : String
  artifacts : List Artifact
  createdAt : Nat
  expiresAt : Nat
  deriving DecidableEq

/-- `[a-f0-9]` -/
def hexDigit (ch : Char) : Bool := ch.isDigit || ('a' ≤ ch && ch ≤ 'f')

/-- `hex(length)` -/
def hex (length : Nat) (text : String) : Bool :=
  text.toList.length == length && Pattern.all hexDigit text

def Artifact.valid (artifact : Artifact) : Bool :=
  Pattern.after "db_" Pattern.dashed artifact.databaseId &&
    artifact.databaseId.toList.length ≤ 83 &&
    Pattern.headed Pattern.word Pattern.dashed artifact.database &&
    artifact.database.toList.length ≤ 64 &&
    hex 64 artifact.sha256 && 0 < artifact.bytes && artifact.bytes ≤ 448 * 1024 ^ 2

/-- `lifecycleBindingSchema` -/
def LifecycleBinding.valid (binding : LifecycleBinding) : Bool :=
  hex 24 binding.id && ["mariadb", "postgresql", "mysql"].contains binding.engine &&
    hex 64 binding.snapshotId &&
    binding.artifacts.all Artifact.valid && 1 ≤ binding.artifacts.length &&
    binding.artifacts.length ≤ 8 &&
    0 < binding.createdAt && 0 < binding.expiresAt

def Artifact.json (artifact : Artifact) : Json :=
  .obj [("databaseId", .str artifact.databaseId), ("database", .str artifact.database),
    ("sha256", .str artifact.sha256), ("bytes", .nat artifact.bytes)]

def LifecycleBinding.json (binding : LifecycleBinding) : Json :=
  .obj [("id", .str binding.id), ("mode", .str binding.mode.text), ("engine", .str binding.engine),
    ("snapshotId", .str binding.snapshotId),
    ("artifacts", .arr (binding.artifacts.map Artifact.json)),
    ("createdAt", .nat binding.createdAt), ("expiresAt", .nat binding.expiresAt)]

/-- A row of `automatic_recovery_lifecycle`, its binding parsed. -/
structure RecordRow where
  mode : Mode
  binding : LifecycleBinding
  ownerToken : String
  action : LifecycleAction := .provision
  state : LifecycleState := .requested
  code : Option String := none
  observedSequence : Nat := 0
  resumeSequence : Nat := 0

/-- What a call of `publish` asks for. -/
structure Publication where
  action : LifecycleAction
  cleanupReady : Bool
  replay : Bool

/-- A call that allocates a new authority to resume. -/
def Publication.allocates (p : Publication) : Bool := p.action == .resume && !p.replay

/-- The row that an intent commits, or the refusal; `none` is a call with nothing to publish. -/
def RecordRow.commit (current : RecordRow) (p : Publication) : Except String (Option RecordRow) :=
  if current.state = .removed then .ok none
  else if current.action = .delete ∧ p.action ≠ .delete then .error "lifecycle-deletion-in-progress"
  else if p.replay ∧ current.action ≠ p.action then .ok none
  else if p.action = .resume then
    if current.mode ≠ .persistent ∨ Js.maxSafeInteger < current.resumeSequence ∨
        (p.replay = false ∧ current.resumeSequence = Js.maxSafeInteger) then
      .error "lifecycle-resume-sequence-invalid"
    else
      let sequence := if p.replay then current.resumeSequence else current.resumeSequence + 1
      if sequence = 0 then .error "lifecycle-resume-explicit-required"
      else .ok (some { current with action := p.action, resumeSequence := sequence })
  else .ok (some { current with action := p.action })

/-! ## Requests -/

/-- An intent that was committed: the row as it was left, and the call. -/
structure Intent where
  row : RecordRow
  publication : Publication

namespace Intent

variable (intent : Intent)

/-- The value whose text is the request file. -/
def request : Json :=
  .obj ([("version", .nat (if intent.publication.action = .resume then 2 else 1)),
    ("binding", intent.row.binding.json), ("ownerToken", .str intent.row.ownerToken),
    ("action", .str intent.publication.action.text),
    ("cleanupReady", .bool intent.publication.cleanupReady)] ++
      if intent.publication.action = .resume then
        [("resumeSequence", .nat intent.row.resumeSequence)]
      else [])

/-- `currentIntent()` -/
def isCurrent (row : Option RecordRow) : Bool :=
  row.any fun current => current.action == intent.publication.action && current.state != .removed &&
    current.resumeSequence == intent.row.resumeSequence

end Intent

structure FileStat where
  isFile : Bool := false
  isDirectory : Bool := false
  isSymbolicLink : Bool := false
  uid : Nat := 10001
  mode : Nat := 0o600
  nlink : Nat := 1
  size : Nat := 0

/-- The directory of the requests is the server's own. -/
def FileStat.safeDirectory (stat : FileStat) : Bool :=
  stat.isDirectory && !stat.isSymbolicLink && stat.uid == 10001 && stat.mode % 0o1000 == 0o700

/-- The file of a request is the server's own. -/
def FileStat.safeRequest (stat : FileStat) : Bool :=
  stat.isFile && stat.uid == 10001 && stat.mode % 0o1000 == 0o600 && stat.nlink == 1

/-- What `writeRequest` waits for. -/
inductive Stage where
  | capability
  | directory
  | existing
  | inspect (text : String)
  | syncExisting
  | closeExisting (result : Except String Bool)
  | write
  | rename
  | syncRequests
  | removeTemporary (result : Except String Unit)

/-- The answer to an await: the engines of a capability that is available, what a `stat`
found, or whether the operation succeeded. -/
inductive Answer where
  | capability (engines : Option (List String))
  | stat (result : Except String FileStat)
  | done (result : Except String Unit)

/-! ## Receipts -/

structure Receipt where
  id : String
  bindingHash : String
  state : LifecycleState
  code : Option String
  observedAt : Nat
  sequence : Nat

/-- Where a call of `receipt` stands; `reading` holds the row it found first. -/
inductive ReceiptPhase where
  | reading (record : RecordRow)
  | stating (value : Receipt)
  | unlinking (value : Receipt)
  | returned (value : Option Receipt)

/-! ## The mailbox -/

/-- The record, its request file, the writes in commit order and the calls of `receipt`. -/
structure Mailbox where
  row : Option RecordRow
  request : Option String
  publishing : Chain Intent Stage (Except String Unit)
  receipts : List ReceiptPhase

namespace Mailbox

def start (row : Option RecordRow) (request : Option String) : Mailbox := ⟨row, request, .empty, []⟩

/-- What the transaction of `ensure` finds outside the record: the snapshot of the parent
row, the random token and whether another lifecycle is not removed yet. -/
structure Surroundings where
  parent : Option String
  token : String
  busy : Bool
  durable : Bool := true

/-- An empty `ownerToken` is an absent one. -/
def ensure (binding : LifecycleBinding) (ownerToken : String) (around : Surroundings) :
    EStateM String Mailbox Unit := do
  refuseIf (!binding.valid) "ZodError"
  match (← get).row with
  | some previous =>
      refuseIf (previous.binding != binding ||
        (ownerToken != "" && previous.ownerToken != ownerToken))
        "lifecycle-binding-mismatch"
  | none => do
      refuseIf (around.parent != some binding.snapshotId) "lifecycle-binding-mismatch"
      refuseIf around.busy "internal-lifecycle-busy"
      let ownerToken := if ownerToken = "" then around.token else ownerToken
      modify fun s => { s with row := some { mode := binding.mode, binding, ownerToken } }

/-- `publish` up to its await: the intent commits, and its write takes its place in the chain. -/
def publish (p : Publication) (around : Surroundings) : EStateM String Mailbox Unit := do
  refuseIf (p.allocates && !around.durable) "lifecycle-durability-unavailable"
  match (← get).row with
  | none => pure ()
  | some current => do
      match ← MonadExcept.ofExcept (current.commit p) with
      | none => pure ()
      | some row =>
          modify fun s => { s with row := some row, publishing := s.publishing.enqueue ⟨row, p⟩ }

/-- What `persistent` reads of the restore. -/
structure DatabaseRestore where
  engine : String
  snapshotId : String
  databaseId : String
  database : String
  sha256 : String
  bytes : Nat
  createdAt : Nat
  expiresAt : Nat
  ownerToken : String

/-- What `testing` reads of the result of a database. -/
structure RecoveryDatabaseResult where
  databaseId : String
  engine : String
  database : String
  sha256 : String
  bytes : Nat

def persistent (id : String) (row : DatabaseRestore) (p : Publication) (around : Surroundings) :
    EStateM String Mailbox Unit := do
  ensure { id, mode := .persistent, engine := row.engine, snapshotId := row.snapshotId,
           artifacts := [⟨row.databaseId, row.database, row.sha256, row.bytes⟩],
           createdAt := row.createdAt, expiresAt := row.expiresAt } row.ownerToken around
  publish p around

def testing (id snapshotId : String) (entries : List RecoveryDatabaseResult) (createdAt : Nat)
    (around : Surroundings) : EStateM String Mailbox Unit :=
  do
  let engine := (entries.head?.map (·.engine)).getD ""
  refuseIf (! ["mariadb", "postgresql", "mysql"].contains engine || entries.any fun entry =>
    entry.engine != engine)
    "lifecycle-binding-mismatch"
  ensure { id, mode := .disposable, engine, snapshotId,
           artifacts := entries.map fun entry => ⟨entry.databaseId, entry.database,
             entry.sha256, entry.bytes⟩,
           createdAt, expiresAt := createdAt + 2 * 60 * 60000 } "" around
  publish ⟨.provision, false, false⟩ around

def action (action : LifecycleAction) (cleanupReady : Bool) (around : Surroundings) :
    EStateM String Mailbox Unit := do
  refuseIf (action == .resume) "lifecycle-resume-explicit-required"
  refuseIf (← get).row.isNone "lifecycle-binding-mismatch"
  publish ⟨action, cleanupReady, false⟩ around

/-! ## The write of a request -/

section

variable (stringify : Json → String) (s : Mailbox)

def setPhase (i : Nat) (phase : LinkPhase Stage (Except String Unit)) : Mailbox :=
  { s with publishing := s.publishing.setPhase i phase }

def goOn (i : Nat) (stage : Stage) : Mailbox := s.setPhase i (.running stage)

def settle (i : Nat) (result : Except String Unit) : Mailbox := s.setPhase i (.settled result)

/-- `previous.catch(() => {}).then(..)`: the write begins when the one before it has settled,
however that was. -/
def turn (i : Nat) : Mailbox :=
  match s.publishing.ready i with
  | some link => if link.call.isCurrent s.row then s.goOn i .capability else s.settle i (.ok ())
  | none => s

/-- The temporary file is removed whichever way the write ends. -/
def cleanUp (i : Nat) (result : Except String Unit) : Mailbox := s.goOn i (.removeTemporary result)

/-- A write goes on with the answer it has waited for. -/
def proceed (i : Nat) (intent : Intent) : Stage → Answer → Mailbox
  | .capability, .capability engines =>
      if engines.any fun engines =>
        engines.contains intent.row.binding.engine then s.goOn i .directory
      else s.settle i (.error "lifecycle-unavailable")
  | .directory, .stat (.error e) => s.settle i (.error e)
  | .directory, .stat (.ok stat) =>
      if stat.safeDirectory then s.goOn i (if intent.publication.replay then .existing else .write)
      else s.settle i (.error "lifecycle-unsafe")
  | .existing, .done (.error e) => if e = "ENOENT" then s.goOn i .write else s.settle i (.error e)
  | .existing, .done (.ok _) =>
      match s.request with
      | none => s.goOn i .write
      | some text => s.goOn i (.inspect text)
  | .inspect _, .stat (.error e) => s.goOn i (.closeExisting (.error e))
  | .inspect text, .stat (.ok stat) =>
      if !stat.safeRequest || 8192 < stat.size then
        s.goOn i (.closeExisting (.error "lifecycle-unsafe"))
      else if text = stringify intent.request then s.goOn i .syncExisting
      else s.goOn i (.closeExisting (.ok false))
  | .syncExisting, .done (.error _) =>
      s.goOn i (.closeExisting (.error "lifecycle-durability-unavailable"))
  | .syncExisting, .done (.ok _) => s.goOn i (.closeExisting (.ok true))
  | .closeExisting _, .done (.error e) => s.settle i (.error e)
  | .closeExisting (.error e), .done (.ok _) => s.settle i (.error e)
  | .closeExisting (.ok written), .done (.ok _) =>
      if written then s.settle i (.ok ()) else s.goOn i .write
  | .write, .done (.error e) => s.cleanUp i (.error e)
  | .write, .done (.ok _) =>
      if intent.isCurrent s.row then s.goOn i .rename else s.cleanUp i (.ok ())
  | .rename, .done (.error e) => s.cleanUp i (.error e)
  | .rename, .done (.ok _) =>
      { s.goOn i .syncRequests with request := some (stringify intent.request) }
  | .syncRequests, .done (.error _) => s.cleanUp i (.error "lifecycle-durability-unavailable")
  | .syncRequests, .done (.ok _) => s.cleanUp i (.ok ())
  | .removeTemporary _, .done (.error e) => s.settle i (.error e)
  | .removeTemporary result, .done (.ok _) => s.settle i result
  | _, _ => s

def answer (i : Nat) (answer : Answer) : Mailbox :=
  match s.publishing.links[i]? with
  | some ⟨intent, _, .running stage⟩ => s.proceed stringify i intent stage answer
  | _ => s

/-! ## Receipts -/

/-- `receipt` up to its first await. -/
def receipt : Mailbox :=
  { s with receipts := s.receipts ++ [(s.row.map .reading).getD (.returned none)] }

def setReceipt (k : Nat) (phase : ReceiptPhase) : Mailbox :=
  { s with receipts := s.receipts.set k phase }

/-- The receipt says less than the record, or the other thing. -/
def RecordRow.outdates (current : RecordRow) (value : Receipt) : Bool :=
  value.sequence < current.observedSequence ||
    (current.state == .removed && value.state != .removed) ||
    (current.observedSequence == value.sequence && current.state != value.state)

/-- The statement that records a receipt. -/
def RecordRow.observe (current : RecordRow) (value : Receipt) : RecordRow :=
  if current.observedSequence ≤ value.sequence then
    { current with state := value.state, code := value.code, observedSequence := value.sequence }
  else current

/-- The receipt was read, `none` when that failed or it is not of the schema. -/
def receiptRead (hash : LifecycleBinding → String → String) (id : String) (k : Nat)
    (value : Option Receipt) (now : Nat) :
    Mailbox :=
  match s.receipts[k]?, value with
  | some (.reading record), some value =>
      if value.id ≠ id ∨ value.bindingHash ≠ hash record.binding record.ownerToken ∨
      now + 5000 < value.observedAt then
        s.setReceipt k (.returned none)
      else
        match s.row with
        | none => s.setReceipt k (.returned none)
        | some current =>
            if RecordRow.outdates current value then s.setReceipt k (.returned none)
            else
              { s.setReceipt k (if value.state = .removed then .stating value
                else .returned (some value)) with
                row := some (RecordRow.observe current value) }
  | some (.reading _), none => s.setReceipt k (.returned none)
  | _, _ => s

def receiptStat (k : Nat) (stat : Except String FileStat) : Mailbox :=
  match s.receipts[k]? with
  | some (.stating value) =>
      match stat with
      | .ok stat =>
          s.setReceipt k (if stat.safeRequest && !stat.isSymbolicLink then .unlinking value
            else .returned (some value))
      | .error _ => s.setReceipt k (.returned (some value))
  | _ => s

def receiptUnlink (k : Nat) (ok : Bool) : Mailbox :=
  match s.receipts[k]? with
  | some (.unlinking value) =>
      { s.setReceipt k (.returned (some value)) with request := if ok then none else s.request }
  | _ => s

end

/-! ## Steps -/

inductive Label where
  | persistent (row : DatabaseRestore) (p : Publication) (around : Surroundings)
  | testing (snapshotId : String) (entries : List RecoveryDatabaseResult) (createdAt : Nat)
      (around : Surroundings)
  | action (action : LifecycleAction) (cleanupReady : Bool) (around : Surroundings)
  | turn (i : Nat)
  | answer (i : Nat) (answer : Answer)
  | release (i : Nat)
  | receipt
  | receiptRead (k : Nat) (value : Option Receipt) (now : Nat)
  | receiptStat (k : Nat) (stat : Except String FileStat)
  | receiptUnlink (k : Nat) (ok : Bool)

/-- The id of the record, the text of a value and `lifecycleHash`. -/
structure Setting where
  id : String
  stringify : Json → String
  hash : LifecycleBinding → String → String

def step (e : Setting) (s : Mailbox) : Label → Mailbox
  | .persistent row p around => (persistent e.id row p around).after s
  | .testing snapshotId entries createdAt around =>
      (testing e.id snapshotId entries createdAt around).after s
  | .action act cleanupReady around => (action act cleanupReady around).after s
  | .turn i => s.turn i
  | .answer i a => s.answer e.stringify i a
  | .release i => { s with publishing := s.publishing.release i }
  | .receipt => s.receipt
  | .receiptRead k value now => s.receiptRead e.hash e.id k value now
  | .receiptStat k stat => s.receiptStat k stat
  | .receiptUnlink k ok => s.receiptUnlink k ok

/-- The mailbox after a run that began with nothing in flight. -/
def run (e : Setting) (row : Option RecordRow) (request : Option String) (labels : List Label) :
    Mailbox :=
  labels.foldl (step e) (start row request)

end Mailbox

end Pluton.AutomaticRecovery
