-- SUMMARY: `ManagedDownloadPreparation`: its jobs, its worker and the steps between them.
import Pluton.Effect
import Pluton.Tar.Proof

/-!
# Download preparation

`backend/src/services/ManagedDownloadPreparation.ts`. Calls, timers and the continuations
of runs are the steps; what a run reports and how it settles is part of the label. A job
keeps its position in the order of creation, which is its id and its place in the map;
`retained` says whether the map still has it. Each reading of the clock is of its own.
-/
namespace Pluton.DownloadPreparation

open EStateM Tar

/-! ## Jobs -/

inductive PreparationState where
  | queued
  | indexing
  | validating
  | ready
  | failed
  | cancelled
  | expired
  deriving DecidableEq

namespace PreparationState

/-- `['queued', 'indexing', 'validating'].includes(state)` -/
def pending : PreparationState → Bool
  | .queued => true
  | .indexing => true
  | .validating => true
  | .ready => false
  | .failed => false
  | .cancelled => false
  | .expired => false

/-- `['queued', 'indexing', 'validating', 'ready'].includes(state)` -/
def live (state : PreparationState) : Bool := state.pending || state == .ready

/-- Cancelled or expired. -/
def withdrawn (state : PreparationState) : Bool := state == .cancelled || state == .expired

end PreparationState

structure AppError where
  statusCode : Nat
  message : String

/-- What a run was rejected with: the `AppError` it is, and the code and the reason of the
three classes that have them. -/
structure Thrown where
  appError : Option AppError
  coded : Option (String × Option String)

/-- What a failed job says of its failure. -/
structure Failure where
  error : String
  failureStatus : Nat
  code : Option String
  reason : Option String

def Thrown.failure (thrown : Thrown) : Failure where
  error := (thrown.appError.map (·.message)).getD "Download preparation failed. Retry preparation."
  failureStatus := (thrown.appError.map (·.statusCode)).getD 500
  code := thrown.coded.map (·.1)
  reason := thrown.coded.bind (·.2)

structure Job where
  key : String
  state : PreparationState := .queued
  createdAt : Nat
  finishedAt : Option Nat := none
  aborted : Bool := false
  exportMode : ManagedExportMode
  summary : Option ManagedExportSummary := none
  proof : Option String := none
  failure : Option Failure := none
  retained : Bool := true

namespace Job

variable (job : Job)

/-- `job.finishedAt`, of which 0 counts as absent. -/
def finished : Option Nat := job.finishedAt.filter (· ≠ 0)

/-- `expire(job)` -/
def expire (now : Nat) : Job :=
  { job with state := .expired, finishedAt := some (job.finished.getD now),
             aborted := true, proof := none }

/-- `cancel(job)` -/
def cancel (now : Nat) : Job :=
  if job.state.live then { job with state := .cancelled, finishedAt := some now,
                                    aborted := true, proof := none }
  else job

/-- One turn of `sweep`, with the readings of the clock in the order of the source. -/
def sweep (active : Bool) (clock : Nat → Nat) : Job :=
  let job :=
    if job.state.pending && 30 * 60000 ≤ clock 0 - job.createdAt then job.expire (clock 1) else job
  let job :=
    if job.state == .ready && job.finishedAt.any fun at' =>
      2 * 60000 ≤ clock 2 - at' then job.expire (clock 3) else job
  if !active && job.finished.any fun at' =>
    15 * 60000 ≤ clock 4 - at' then { job with retained := false } else job

/-- The state that a run reports with `stage`. -/
def stage (state : PreparationState) : Job := if job.aborted then job else { job with state }

/-- The job after its run has settled. -/
def conclude (result : Except Thrown (String × Option ManagedExportSummary)) (now : Nat) : Job :=
  let job :=
    if job.aborted then job
    else
      match result with
      | .ok (proof, summary) => { job with proof := some proof, summary, state := .ready }
      | .error thrown => { job with state := .failed, failure := some thrown.failure }
  { job with finishedAt := some now }

end Job

/-! ## The service -/

/-- All jobs, the run that `active` names, the runs in progress, the pumps that are
scheduled and the calls of `close` that wait for a run. -/
structure Service where
  jobs : List Job := []
  active : Option Nat := none
  runs : List Nat := []
  immediates : Nat := 0
  closed : Bool := false
  closing : List (Option Nat) := []

namespace Service

variable (s : Service)

/-- The jobs in the map. -/
def retained : List Job := s.jobs.filter (·.retained)

/-- The first job in the map that satisfies the condition, with its position. -/
def find (cond : Nat → Job → Bool) : Option (Job × Nat) :=
  s.jobs.zipIdx.find? fun entry => entry.1.retained && cond entry.2 entry.1

def amend (k : Nat) (f : Job → Job) : Service := { s with jobs := s.jobs.modify k f }

def sweep (clock : Nat → Nat → Nat) : Service :=
  { s with jobs := s.jobs.mapIdx fun k job =>
    if job.retained then job.sweep (s.active == some k) (clock k) else job }

def pump : Service :=
  if s.closed || s.active.isSome then s
  else
    match s.find fun _ job => job.state == .queued with
    | none => s
    | some (_, k) => { s with active := some k, runs := s.runs ++ [k] }

/-- The room for one more job in the map. -/
def makeRoom : EStateM AppError Service Unit := do
  let s ← get
  if 32 ≤ s.retained.length then
    match s.find fun k job => s.active != some k && !job.state.pending with
    | some (_, k) => modify (·.amend k fun job => { job with retained := false })
    | none => throw ⟨429, "Download preparation is busy."⟩
  else pure ()

/-- The end of `start`: a new job is queued. -/
def enter (key : String) (exportMode : ManagedExportMode) (created : Nat) :
    EStateM AppError Service Nat := do
  refuseIf (4 ≤ ((← get).retained.filter (·.state.pending)).length)
    ⟨429, "Download preparation is busy. Retry after another preparation finishes."⟩
  makeRoom
  let k := (← get).jobs.length
  modify fun s =>
    { s with jobs := s.jobs ++ [{ key, createdAt := created, exportMode }],
             immediates := s.immediates + 1 }
  pure k

/-- The readings of the clock of one call: those of its sweep, the one of `expire` and the
one that dates the new job. -/
structure Readings where
  sweep : Nat → Nat → Nat
  expire : Nat
  created : Nat

/-- `valid` is what `validProof` says of the proof of a job that is ready. -/
def start (key : String) (valid : Bool) (exportMode : ManagedExportMode) (clock : Readings) :
    EStateM AppError Service Nat := do
  modify (·.sweep clock.sweep)
  refuseIf (← get).closed ⟨503, "Download preparation is shutting down."⟩
  match (← get).find fun _ job => job.key == key && job.state.live with
  | none => enter key exportMode clock.created
  | some (job, k) =>
      if job.state == .ready && (job.proof.getD "" == "" || !valid) then do
        modify (·.amend k fun job => job.expire clock.expire)
        enter key exportMode clock.created
      else pure k

/-- `get`; an id of another form than an id is `none`. -/
def get (key : String) (id : Option Nat) (clock : Nat → Nat → Nat) :
    EStateM AppError Service (Option Job) := do
  match id with
  | none => throw ⟨400, "Invalid preparation identity."⟩
  | some k => do
      modify (·.sweep clock)
      let job := ((← MonadState.get).jobs[k]?).filter (·.retained)
      refuseIf (job.any fun job => job.key != key) ⟨404, "Download preparation not found."⟩
      pure job

/-- A run settles: its job is concluded, and the worker turns to the next one. -/
def settle (k : Nat) (result : Except Thrown (String × Option ManagedExportSummary)) (now : Nat) :
    Service :=
  if k ∈ s.runs then pump { s.amend k fun job => job.conclude result now with
    active := none, runs := s.runs.erase k }
  else s

/-- `close` up to its await. -/
def close (clock : Nat → Nat) : Service :=
  { s with
    closed := true
    jobs := s.jobs.mapIdx fun k job => if job.retained then job.cancel (clock k) else job
    closing := s.closing ++ [s.active] }

/-- A call of `close` whose run has settled clears the map. -/
def clear (c : Nat) : Service :=
  match s.closing[c]? with
  | some awaited =>
      if awaited.any fun k => k ∈ s.runs then s
      else { s with jobs := s.jobs.map fun job => { job with retained := false },
                    closing := s.closing.eraseIdx c }
  | none => s

/-! ## Steps -/

/-- The states a run may report. -/
inductive Reported where
  | indexing
  | validating

def Reported.state : Reported → PreparationState
  | .indexing => .indexing
  | .validating => .validating

inductive Label where
  | start (key : String) (valid : Bool) (exportMode : ManagedExportMode) (clock : Readings)
  | get (key : String) (id : Option Nat) (clock : Nat → Nat → Nat)
  | expire (k : Nat) (now : Nat)
  | cancel (k : Nat) (now : Nat)
  | timer (clock : Nat → Nat → Nat)
  | immediate
  | stage (k : Nat) (reported : Reported)
  | settle (k : Nat) (result : Except Thrown (String × Option ManagedExportSummary)) (now : Nat)
  | close (clock : Nat → Nat)
  | clear (c : Nat)

/-- A step. The interval is cleared by `close`; a run reports as long as it is in progress. -/
def step (s : Service) : Label → Service
  | .start key valid exportMode clock => (start key valid exportMode clock).after s
  | .get key id clock => (get key id clock).after s
  | .expire k now => s.amend k fun job => job.expire now
  | .cancel k now => s.amend k fun job => job.cancel now
  | .timer clock => if s.closed then s else s.sweep clock
  | .immediate => if s.immediates = 0 then s else { s with immediates := s.immediates - 1 }.pump
  | .stage k reported => if k ∈ s.runs then s.amend k fun job => job.stage reported.state else s
  | .settle k result now => s.settle k result now
  | .close clock => s.close clock
  | .clear c => s.clear c

/-- The service after a run. -/
def run (labels : List Label) : Service := labels.foldl step {}

end Service

end Pluton.DownloadPreparation
