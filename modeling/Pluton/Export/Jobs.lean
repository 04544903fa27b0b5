-- SUMMARY: Temporary export jobs: their journal, the service on it, how its calls interleave.
import Pluton.Table

/-!
# Temporary exports

`ManagedExportService.ts` over `ManagedExportStore.ts`. The journal is a table of jobs
that every part of the service reads and writes without holding it across an `await`:
one run, one sweep, cleanups and requests. `step` resumes one of them up to its next
`await`; what the storage, the recovery service and the configuration answer is part of
the label. A call that waits for another of the service's own promises may be resumed
at any time.
-/
namespace Pluton.Export

/-! ## The journal -/

inductive ExportState where
  | queued
  | validating
  | exporting
  | uploading
  | verifying
  | ready
  | failed
  | cancelled
  | expired
  deriving DecidableEq

def activeExport (state : ExportState) : Bool :=
  [ExportState.queued, .validating, .exporting, .uploading, .verifying].contains state

inductive Kind where
  | archive
  | preflight
  | inventory
  deriving DecidableEq

/-- How far a run has come. -/
inductive Stage where
  | preflight
  | archiveValidation
  | upload
  | objectVerification
  | bindingValidation
  deriving DecidableEq

/-- What the upload has published. `identity` is the text of the identity; `writeOnce` is
whether its mode, which is the integrity mode of the job, is a write-once one. -/
structure Publication where
  writeOnce : Bool := false
  identity : Option String := none
  versionId : Option String := none
  etag : Option String := none

/-- A job without a kind is an archive; a binding is known by its digest. -/
structure ExportJob where
  id : String
  kind : Kind
  owner : String
  backupId : String
  bindingDigest : String
  state : ExportState
  failure : Option String := none
  failureStage : Option Stage := none
  expiresAt : Option Nat := none
  summary : Bool := false
  publication : Publication := {}
  cleaned : Bool
  cleanupAttempts : Nat

/-- `(job.expiresAt || 0) <= now` -/
def ExportJob.over (job : ExportJob) (now : Nat) : Bool := job.expiresAt.getD 0 ≤ now

def ExportJob.failWith (reason : String) (job : ExportJob) : ExportJob :=
  { job with failure := some reason }

def ExportJob.failAt (stage : Stage) (reason : String) (job : ExportJob) : ExportJob :=
  { job with failure := some reason, failureStage := some stage }

/-- `['failed', 'cancelled', 'expired'].includes(job.state)` -/
def ExportState.inert (state : ExportState) : Bool :=
  [ExportState.failed, .cancelled, .expired].contains state

/-! ## Calls in flight -/

/-- Where the run waits. In `cleaning` its `catch` waits for the cleanup. -/
inductive Place where
  | isolating
  | inventorying
  | modeChecking
  | preflighting
  | archiveIsolating
  | archive
  | callbackIsolating
  | callbackInventory
  | uploading
  | objectVerifying
  | finalIsolating
  | binding
  | cleaning
  | settled
  deriving DecidableEq

/-- The run is still in its `try`. -/
def Place.live : Place → Bool
  | cleaning | settled => false
  | _ => true

structure ExportConfig where
  allowSharedNamespace : Bool
  ttlSeconds : Nat

/-- The one run of the service, with the configuration that it holds. -/
structure ActiveRun where
  id : String
  kind : Kind
  config : ExportConfig
  aborted : Bool := false
  stage : Stage := .preflight
  place : Place := .isolating

inductive CleanupPlace where
  | isolating
  | deleting
  | settled

structure Cleaning where
  id : String
  place : CleanupPlace

/-- What a request for a ready archive is for. -/
inductive Purpose where
  | authorize
  | content

/-- Where a request waits, with the job as it read it. -/
inductive Request where
  | cancelOwned (job : ExportJob)
  | cancelPreflight (id : String)
  | statusOwned (job : ExportJob)
  | readyOwned (purpose : Purpose) (job : ExportJob)
  | readyIsolating (purpose : Purpose) (job : ExportJob)
  | readyInventory (purpose : Purpose) (job : ExportJob)
  | readyIdentity (purpose : Purpose) (job : ExportJob)
  | readyAgain (job : ExportJob)
  | granted (purpose : Purpose) (job : ExportJob)
  | authorizing (job : ExportJob)
  | settled

/-- What happened to a job: a state that was written, with the state before and whether
the run of the job was aborted; a cancellation; a mark of `recoverInterrupted`; a check
of `ready` or `authorize` that let a download pass. -/
inductive Event where
  | wrote (id : String) (kind : Kind) (before after : ExportState) (aborted : Bool)
  | cancelled (id : String)
  | interrupted (id : String)
  | authorized (id : String)
  deriving DecidableEq

structure Service where
  now : Nat
  jobs : List ExportJob
  active : Option ActiveRun := none
  /-- The rows that a sweep has read and still has to visit. -/
  sweeping : Option (List ExportJob) := none
  cleanups : List Cleaning := []
  /-- The explicit cleanups that `setImmediate` will start. -/
  immediates : List ExportJob := []
  requests : List Request := []
  log : List Event := []

namespace Service

variable (s : Service)

def get (id : String) : Option ExportJob := s.jobs.find? fun job => job.id == id

/-- The run of that job was aborted. -/
def abortedRun (id : String) : Bool := s.active.any fun run => run.id == id && run.aborted

/-- `store.update(id, fields)` for fields other than the state. -/
def amend (id : String) (set : ExportJob → ExportJob) : Service :=
  { s with jobs := Table.update s.jobs (fun job => job.id == id) set }

/-- `store.update(id, { ...fields, state })` -/
def write (id : String) (state : ExportState) (set : ExportJob → ExportJob) : Service :=
  match s.get id with
  | none => s
  | some job =>
      { s with
        jobs :=
          Table.update s.jobs (fun row => row.id == id) fun row => { set row with state := state }
        log := s.log ++ [.wrote id job.kind job.state state (s.abortedRun id)] }

/-! ## Cleanup -/

/-- `cleanup` up to its first `await`. `configured` is whether `config` answers. -/
def cleanup (job : ExportJob) (explicit configured : Bool) : Service :=
  if s.cleanups.any fun held => held.id == job.id then s
  else if job.cleaned || (!explicit && 10 ≤ job.cleanupAttempts) then
    { s with cleanups := s.cleanups ++ [{ id := job.id, place := .settled }] }
  else
    let attempted :=
      s.amend job.id fun row => { row with cleanupAttempts := job.cleanupAttempts + 1 }
    { attempted with
      cleanups := s.cleanups ++ [⟨job.id, if configured then .isolating else .settled⟩] }

def setCleanup (id : String) (place : CleanupPlace) : Service :=
  { s with cleanups := Table.update s.cleanups (fun held => held.id == id) fun held =>
    { held with place := place } }

/-- A cleanup goes on: `returned` is whether the awaited call did. -/
def resumeCleanup (id : String) (returned : Bool) : Service :=
  match s.cleanups.find? fun held => held.id == id with
  | none => s
  | some held =>
      match held.place with
      | .isolating => s.setCleanup id (if returned then .deleting else .settled)
      | .deleting =>
          let cleaned := if returned then s.amend id fun row => { row with cleaned := true } else s
          cleaned.setCleanup id .settled
      | .settled => { s with cleanups := s.cleanups.filter fun other => other.id != id }

/-! ## The run -/

end Service

/-- What a run fails with, as far as it decides the reason. -/
inductive Failure where
  | key
  | temporary (reason : String)
  | refused
  | other

/-- The reason that the `catch` of a run records. -/
def failureReason (run : ActiveRun) (state : ExportState) (late : Bool) (failure : Failure) :
    String :=
  if run.aborted || state == .cancelled then "cancelled"
  else match failure with
    | .key => "encryption-key-unavailable"
    | .temporary reason => reason
    | .refused => if late then "interrupted" else "archive-refused"
    | .other =>
        if late then "interrupted"
        else if run.stage == .archiveValidation then "archive-refused"
        else "storage-unavailable"

/-- What the storage, the recovery service or a timer does to the run. `late` is whether
its deadline has passed, `cleaner` whether `config` answers a cleanup that starts. -/
inductive RunAnswer where
  | returned (late : Bool)
  | threw (failure : Failure) (late : Bool)
  | callback (late refused : Bool)
  | progress (state : Option ExportState) (publication : Option Publication)

namespace Service

variable (s : Service)

def setPlace (run : ActiveRun) (place : Place) : Service :=
  { s with active := some { run with place := place } }

/-- What the `catch` of the run stores. -/
def storeFailure (run : ActiveRun) (state : ExportState) (failure : Failure) (late : Bool) :
    Service :=
  let reason := failureReason run state late failure
  s.write run.id (if reason == "cancelled" then .cancelled else .failed)
    (ExportJob.failAt run.stage reason)

/-- The `catch` of the run, up to its cleanup. -/
def failRun (run : ActiveRun) (failure : Failure) (late cleaner : Bool) : Service :=
  match s.get run.id with
  | none => s.setPlace run .settled
  | some job =>
      let failed := s.storeFailure run job.state failure late
      if run.kind == .inventory then failed.setPlace run .settled
      else
        match failed.get run.id with
        | none => failed.setPlace run .settled
        | some row => (failed.cleanup row false cleaner).setPlace run .cleaning

/-- The run publishes its job; nothing of it follows. -/
def publish (run : ActiveRun) (set : ExportJob → ExportJob) : Service :=
  (s.write run.id .ready set).setPlace run .settled

/-- `fifteen minutes`, the life of a preflight's result -/
def proofLife : Nat := 15 * 60000

/-- After the isolation check, the inventory or the mode: the next call of the storage. -/
def beforePreflight (run : ActiveRun) : Service :=
  if run.kind != .preflight && run.config.allowSharedNamespace then s.setPlace run .modeChecking
  else s.setPlace run .preflighting

/-- The awaited call threw. What is thrown in the callback goes back to the recovery service. -/
def threw (run : ActiveRun) (failure : Failure) (late cleaner : Bool) : Service :=
  if [Place.callbackIsolating, .callbackInventory, .uploading,
    .objectVerifying].contains run.place then
    s.setPlace run .archive
  else s.failRun run failure late cleaner

/-- The upload reports; the report is refused when the job was cancelled. -/
def progress (run : ActiveRun) (state : Option ExportState) (publication : Option Publication) :
    Service :=
  if run.place != .uploading || (s.get run.id).any fun job => job.state == .cancelled then s
  else
    let publish :=
      fun (row : ExportJob) => { row with publication := publication.getD row.publication }
    match state with
    | some .uploading => (s.write run.id .uploading publish).setPlace run .uploading
    | some .verifying => (s.write run.id .verifying publish).setPlace run .uploading
    | _ => s.amend run.id publish

/-- The recovery service hands a verified archive to the callback. -/
def callback (run : ActiveRun) (late refused : Bool) : Service :=
  if run.place != .archive || run.aborted || late || refused then s
  else
    let exporting := s.write run.id .exporting fun row => { row with summary := true }
    exporting.setPlace { run with stage := .upload } .callbackIsolating

/-- The awaited call returned. -/
def returned (run : ActiveRun) (late cleaner : Bool) : Service :=
  match run.place with
  | .isolating =>
      if run.aborted || late then s.failRun run .other late cleaner
      else
        let validating := s.write run.id .validating fun row => row
        if run.config.allowSharedNamespace || run.kind == .inventory then
          validating.setPlace run .inventorying
        else validating.beforePreflight run
  | .inventorying =>
      if run.kind != .inventory then s.beforePreflight run
      else if run.aborted || late then s.failRun run .other late cleaner
      else s.publish run fun row => { row with expiresAt := some (s.now + proofLife) }
  | .modeChecking => s.setPlace run .preflighting
  | .preflighting =>
      if run.kind != .preflight then
        s.setPlace { run with stage := .archiveValidation } .archiveIsolating
      else if run.aborted || late then s.failRun run .other late cleaner
      else s.publish run fun row =>
        { row with cleaned := true, expiresAt := some (s.now + proofLife) }
  | .archiveIsolating => s.setPlace run .archive
  | .archive =>
      if run.aborted || late then s.failRun run .other late cleaner
      else s.setPlace { run with stage := .bindingValidation } .finalIsolating
  | .callbackIsolating =>
      if run.config.allowSharedNamespace then s.setPlace run .callbackInventory
        else s.setPlace run .uploading
  | .callbackInventory => s.setPlace run .uploading
  | .uploading => s.setPlace { run with stage := .objectVerification } .objectVerifying
  | .objectVerifying => s.setPlace run .archive
  | .finalIsolating => s.setPlace run .binding
  | .binding =>
      if run.aborted || late then s.failRun run .other late cleaner
      else if (s.get run.id).all fun job => job.state != .verifying then
        s.failRun run (.temporary "cancelled") late cleaner
      else s.publish run fun row =>
        { row with expiresAt := some (s.now + run.config.ttlSeconds * 1000) }
  | .cleaning => s.setPlace run .settled
  | .settled => { s with active := none }

/-- A run goes on. An answer that does not fit its place is none. -/
def resumeRun (answer : RunAnswer) (cleaner : Bool) : Service :=
  match s.active with
  | none => s
  | some run =>
      match answer with
      | .returned late => s.returned run late cleaner
      | .threw failure late => if run.place.live then s.threw run failure late cleaner else s
      | .callback late refused => s.callback run late refused
      | .progress state publication => s.progress run state publication

/-- `run` up to its first `await`; `configured` is what `config` answers. -/
def startRun (job : ExportJob) (configured : Option ExportConfig) (cleaner : Bool) : Service :=
  match configured with
  | some config => s.setPlace { id := job.id, kind := job.kind, config := config } .isolating
  | none =>
      s.failRun { id := job.id, kind := job.kind, config := ⟨false, 0⟩ }
        (.temporary "not-configured") false cleaner

/-! ## The sweep -/

def setSweeping (rows : Option (List ExportJob)) : Service := { s with sweeping := rows }

/-- The sweep has visited every row that it read: the next queued job runs. -/
def sweepEnd (configured : Option ExportConfig) (cleaner : Bool) : Service :=
  let ended := s.setSweeping none
  if ended.active.isSome then ended
  else
    match ended.jobs.find? fun job => job.state == .queued with
    | none => ended
    | some next => ended.startRun next configured cleaner

/-- The job as the sweep goes on with it. -/
def swept (original : ExportJob) : Service × ExportJob :=
  if original.state == .ready && original.over s.now then
    let expired := s.write original.id .expired (ExportJob.failWith "expired")
    (expired, (expired.get original.id).getD original)
  else (s, original)

/-- The sweep visits the rows that it read, up to the next cleanup. -/
def sweep (configured : Option ExportConfig) (cleaner : Bool) : List ExportJob → Service → Service
  | [], s => s.sweepEnd configured cleaner
  | original :: rest, s =>
      let (next, job) := s.swept original
      if !job.cleaned && job.state.inert && next.active.all (fun run => run.id != job.id) &&
        job.cleanupAttempts < 10 then
        (next.cleanup job false cleaner).setSweeping (some rest)
      else sweep configured cleaner rest next

/-! ## Requests -/

/-- `setImmediate(() => cleanup(job, true))`, with the row as it is. -/
def scheduleCleanup (id : String) : Service :=
  { s with immediates := s.immediates ++ (s.get id).toList }

/-- `controller.abort()`, when the run is of that job. -/
def abort (id : String) : Service :=
  { s with active := s.active.map fun run =>
    if run.id == id then { run with aborted := true } else run }

/-- The state is stored; then the run of the job is aborted, or its cleanup scheduled. -/
def cancelJob (id : String) (clean : ExportJob → Bool) : Service :=
  match s.get id with
  | none => s
  | some job =>
      let written := s.write id .cancelled (ExportJob.failWith "cancelled")
      let stored := { written with log := written.log ++ [.cancelled id] }
      if s.active.any fun run => run.id == id then stored.abort id
      else if clean job then stored.scheduleCleanup id
      else stored

end Service

/-- What a request for a ready archive fails with, as far as it matters. -/
inductive ReadyFailure where
  | destinationIsolation
  | key
  | temporary (reason : String)
  | status (httpStatusCode : Nat)
  | other

/-- The failure says that the object is not the one that was published. -/
def ReadyFailure.mismatch : ReadyFailure → Bool
  | temporary reason =>
      ["object-mismatch", "security-capability-missing", "binding-changed"].contains reason
  | status httpStatusCode => httpStatusCode == 404 || httpStatusCode == 412
  | destinationIsolation => true
  | key | other => false

def ReadyFailure.reason : ReadyFailure → String
  | temporary reason => reason
  | destinationIsolation => "security-capability-missing"
  | _ => "object-mismatch"

/-- What a request was waiting for. -/
inductive Reply where
  | binding (digest : String)
  | isolated (config : ExportConfig)
  | returned
  | threw (failure : ReadyFailure)

inductive Call where
  | cancel (owner backupId id : String)
  | cancelPreflight (owner id : String)
  | status (owner backupId id : String)
  | ready (purpose : Purpose) (owner backupId id : String)

def validId (id : String) : Bool :=
  id.toList.all (fun ch => ch.isDigit || ('a' ≤ ch && ch ≤ 'f') || ch == '-') &&
    id.toList.length == 36

/-- What `ready` asks of the job as `owned` read it. -/
def ExportJob.downloadable (job : ExportJob) (now : Nat) : Bool :=
  job.state == .ready && job.summary &&
    (job.publication.writeOnce || job.publication.versionId.isSome) &&
    job.publication.etag.isSome && !job.over now

namespace Service

variable (s : Service)

/-- `owned` up to its `await`. -/
def owned (owner backupId id : String) : Option ExportJob :=
  if validId id then (s.get id).filter fun job =>
    job.owner == owner && job.backupId == backupId else none

def preflightStatus (owner id : String) : Option ExportJob :=
  (s.get id).filter fun job => job.kind != .archive && job.owner == owner

/-- A request up to its first `await`; one that is refused leaves nothing. -/
def call : Call → Option Request
  | .cancel owner backupId id => (s.owned owner backupId id).map .cancelOwned
  | .cancelPreflight owner id => (s.preflightStatus owner id).map fun job => .cancelPreflight job.id
  | .status owner backupId id => (s.owned owner backupId id).map .statusOwned
  | .ready purpose owner backupId id => (s.owned owner backupId id).map (.readyOwned purpose)

def isReady (id : String) : Bool := (s.get id).any fun job => job.state == .ready

def authorize (id : String) : Service := { s with log := s.log ++ [.authorized id] }

/-- The `catch` of `ready`. -/
def failReady (job : ExportJob) (failure : ReadyFailure) : Service :=
  if failure.mismatch && s.isReady job.id then
    s.write job.id .failed (ExportJob.failAt .objectVerification failure.reason)
  else s

/-- The second look of `ready` at the job. -/
def stillReady (job : ExportJob) : Bool :=
  (s.get job.id).any fun current =>
    current.state == .ready && current.publication.versionId == job.publication.versionId &&
      current.publication.identity == job.publication.identity && !current.over s.now

/-- `EXPORT_LIMITS.authorizationSeconds` is at least one second. -/
def secondsLeft (job : ExportJob) : Nat := (job.expiresAt.getD 0 - s.now) / 1000

/-- One resumption of a request: the service after it, and where the request then waits. -/
def resume (request : Request) (reply : Reply) : Service × Request :=
  match request, reply with
  | .cancelOwned job, .binding digest =>
      if digest == job.bindingDigest then (s.cancelJob job.id fun _ => true, .settled)
        else (s, .settled)
  | .cancelPreflight id, .returned => (s.cancelJob id fun job => job.kind != .inventory, .settled)
  | .statusOwned job, .binding digest =>
      if digest == job.bindingDigest && job.state == .ready && job.over s.now then
        (s.write job.id .expired (ExportJob.failWith "expired"), .settled)
      else (s, .settled)
  | .readyOwned purpose job, .binding digest =>
      if digest == job.bindingDigest && job.downloadable s.now then (s, .readyIsolating purpose job)
      else (s, .settled)
  | .readyIsolating purpose job, .isolated config =>
      (s, if config.allowSharedNamespace then .readyInventory purpose job
        else .readyIdentity purpose job)
  | .readyInventory purpose job, .returned => (s, .readyIdentity purpose job)
  | .readyIdentity purpose job, .returned =>
      if s.stillReady job then (s.authorize job.id, .granted purpose job) else (s, .settled)
  | .readyInventory _ job, .threw .destinationIsolation => (s, .readyAgain job)
  | .readyIdentity _ job, .threw .destinationIsolation => (s, .readyAgain job)
  | .readyInventory _ job, .threw failure => (s.failReady job failure, .settled)
  | .readyIdentity _ job, .threw failure => (s.failReady job failure, .settled)
  | .readyAgain job, .threw failure => (s.failReady job failure, .settled)
  | .readyAgain _, .returned => (s, .settled)
  | .granted .authorize job, .returned =>
      if s.secondsLeft job < 1 then (s, .settled)
      else if !job.publication.writeOnce then (s, .authorizing job)
      else (if s.isReady job.id then s.authorize job.id else s, .settled)
  | .granted .content _, .returned => (s, .settled)
  | .authorizing job, .returned => (if s.isReady job.id then s.authorize job.id else s, .settled)
  | _, .threw _ => (s, .settled)
  | request, _ => (s, request)

/-! ## Steps -/

/-- `recoverInterrupted` on one of the rows that it read. -/
def interrupt (job : ExportJob) : Service :=
  if activeExport job.state then
    let written := s.write job.id .failed (ExportJob.failWith "interrupted")
    { written with log := written.log ++ [.interrupted job.id] }
  else s

end Service

/-- What happens next. `configured` is what `config` answers a run that starts, `cleaner`
whether it answers a cleanup that starts. -/
inductive Label where
  | pass (ms : Nat)
  | call (call : Call)
  | reply (i : Nat) (reply : Reply)
  | tick (configured : Option ExportConfig) (cleaner : Bool)
  | sweep (configured : Option ExportConfig) (cleaner : Bool)
  | immediate (i : Nat) (cleaner : Bool)
  | run (answer : RunAnswer) (cleaner : Bool)
  | cleanup (id : String) (returned : Bool)
  | recoverInterrupted

open Service in
def step (s : Service) : Label → Service
  | .pass ms => { s with now := s.now + ms }
  | .call call => { s with requests := s.requests ++ (s.call call).toList }
  | .reply i reply =>
      match s.requests[i]? with
      | none => s
      | some request =>
          let next := s.resume request reply
          { next.1 with requests := s.requests.set i next.2 }
  | .tick configured cleaner => if s.sweeping.isSome then s else sweep configured cleaner s.jobs s
  | .sweep configured cleaner =>
      match s.sweeping with
      | none => s
      | some rest => sweep configured cleaner rest s
  | .immediate i cleaner =>
      match s.immediates[i]? with
      | none => s
      | some job => { s with immediates := s.immediates.eraseIdx i }.cleanup job true cleaner
  | .run answer cleaner => s.resumeRun answer cleaner
  | .cleanup id returned => s.resumeCleanup id returned
  | .recoverInterrupted => s.jobs.foldl interrupt s

/-- A journal: its ids are distinct. -/
structure Journal where
  rows : List ExportJob
  keys : (rows.map fun job => job.id).Nodup

/-- The service over a journal that was left by an earlier process. -/
def Service.start (journal : Journal) (now : Nat) : Service := { now := now, jobs := journal.rows }

end Pluton.Export
