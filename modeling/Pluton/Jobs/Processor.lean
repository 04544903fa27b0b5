-- SUMMARY: `JobProcessor.processQueue` over the job queue, with a log of what happened.
import Pluton.Jobs.Queue

/-!
# The job processor

`processQueue` of `backend/src/jobs/JobProcessor.ts` runs without interruption up to
`task.run(job)`; what follows runs when the task has settled. Calls of the queue may come
in between.
-/
namespace Pluton.Jobs

/-- An error that a task rejects with: its text and its member `retryable`. -/
structure TaskError where
  message : String
  retryable : Option Bool := none

/-- How a task ends. It may reject with `null` or `undefined`. -/
inductive Outcome where
  | resolved
  | rejected (error : Option TaskError)

def TaskError.isCancellation (error : TaskError) : Bool :=
  "BACKUP_CANCELLED:".toList.isPrefixOf error.message.toList ||
    "RESTORE_CANCELLED:".toList.isPrefixOf error.message.toList

/-- What has happened to the jobs. `job` of an `added` is the job that was made, if any. -/
inductive Event where
  | added (name : String) (payload : Option Json) (job : Option Job)
  | removed (name planId : String) (jobs : List Job)
  | started (job : Job)
  | completed (job : Job)
  | failed (job : Job)

/-- `running` are the jobs whose task is being awaited, `log` what has happened, latest first. -/
structure System where
  jobQueue : JobQueue := {}
  isRunning : Bool := false
  activeBackupJobs : Nat := 0
  tasks : List String := []
  running : List Job := []
  log : List Event := []

inductive Label where
  | add (name : String) (payload : Option Json) (maxAttempts retryDelay : Int)
  | addPriorityJob (name : String) (payload : Option Json) (maxAttempts retryDelay : Int)
  | remove (name planId : String)
  | addTask (name : String)
  /-- A tick of the processor, with `MAX_CONCURRENT_BACKUPS`. -/
  | processQueue (now limit : Nat)
  /-- A task under way settles. -/
  | settle (i now : Nat) (outcome : Outcome)

/-- What `processQueue` does with the job that it took. -/
inductive Turn where
  | limitReached
  | delayed
  | run
  | noTask

namespace System

variable (s : System)

def addJob (name : String) (payload : Option Json) (maxAttempts retryDelay : Int)
    (isPriority : Bool) : System :=
  let job :=
    if s.jobQueue.isPresent name payload then none
    else some (s.jobQueue.newJob name payload maxAttempts retryDelay)
  { s with
    jobQueue := s.jobQueue.addJob name payload maxAttempts retryDelay isPriority
    log := .added name payload job :: s.log }

def remove (name planId : String) : System :=
  { s with
    jobQueue := s.jobQueue.remove name planId
    log := .removed name planId (s.jobQueue.removed name planId) :: s.log }

def turn (now limit : Nat) (job : Job) : Turn :=
  if job.name = "Backup" ∧ limit ≤ s.activeBackupJobs then .limitReached
  else if job.lastAttempt ≠ 0 ∧ (now : Int) - job.lastAttempt < job.retryDelay then .delayed
  else if s.tasks.contains job.name then .run
  else .noTask

/-- The job fails, and is queued again or failed for good. -/
def fail (q : JobQueue) (job : Job) (now : Nat) : System :=
  { s with
    jobQueue := (q.failJob job now).2
    log := if (q.failJob job now).1 then .failed job :: s.log else s.log }

/-- `processQueue` up to `task.run(job)`. -/
def processQueue (now limit : Nat) : System :=
  if s.isRunning then s
  else match s.jobQueue.getNext with
    | none => s
    | some (job, q) =>
        match s.turn now limit job with
        | .limitReached => { s with jobQueue := q.requeueAtFront job }
        | .delayed => { s with jobQueue := q.reQueue job }
        | .run =>
            { s with
              jobQueue := q
              isRunning := true
              activeBackupJobs :=
                if job.name = "Backup" then s.activeBackupJobs + 1 else s.activeBackupJobs
              running := s.running ++ [job]
              log := .started job :: s.log }
        | .noTask => s.fail q job now

/-- What `processQueue` does with the queue when the task of a job has ended. -/
def conclude (job : Job) (now : Nat) : Outcome → System
  | .resolved => { s with jobQueue := s.jobQueue.completeJob, log := .completed job :: s.log }
  | .rejected none => s -- reading the message of the error throws
  | .rejected (some error) =>
      if error.isCancellation then
        { s with jobQueue := s.jobQueue.completeJob, log := .completed job :: s.log }
      else if error.retryable = some false then
        { s with jobQueue := s.jobQueue.completeJob, log := .failed job :: s.log }
      else s.fail s.jobQueue job now

/-- `processQueue` from the end of `task.run(job)`. -/
def settle (i now : Nat) (outcome : Outcome) : System :=
  match s.running[i]? with
  | none => s
  | some job =>
      { s.conclude job now outcome with
        isRunning := false
        activeBackupJobs :=
          if job.name = "Backup" then s.activeBackupJobs - 1 else s.activeBackupJobs
        running := s.running.eraseIdx i }

def step : Label → System
  | .add name payload maxAttempts retryDelay => s.addJob name payload maxAttempts retryDelay false
  | .addPriorityJob name payload maxAttempts retryDelay =>
      s.addJob name payload maxAttempts retryDelay true
  | .remove name planId => s.remove name planId
  | .addTask name => { s with tasks := name :: s.tasks }
  | .processQueue now limit => s.processQueue now limit
  | .settle i now outcome => s.settle i now outcome

/-- The state after a run, over the registered tasks. -/
def run (tasks : List String) (ls : List Label) : System := ls.foldl step { tasks }

end System

/-- An error after which a job is tried again while it has retries left. -/
def Outcome.retryable : Outcome → Bool
  | .rejected (some error) => !error.isCancellation && error.retryable != some false
  | _ => false

/-! ## What the steps of the processor do -/

namespace System

/-- The queue once `rest` is what waits behind nothing. -/
def withQueue (s : System) (jobs : List Job) : System :=
  { s with jobQueue := { s.jobQueue with queue := jobs } }

/-- The system once the task of the first job has been started. -/
def started (s : System) (job : Job) (rest : List Job) : System :=
  { s with
    jobQueue := { s.jobQueue with queue := rest, runningJob := some job }
    isRunning := true
    activeBackupJobs := if job.name = "Backup" then s.activeBackupJobs + 1 else s.activeBackupJobs
    running := s.running ++ [job]
    log := .started job :: s.log }

/-- A tick takes the first job, when nothing runs, and starts it, puts it back, or fails it. -/
theorem processQueue_cases (s : System) (now limit : Nat) :
    s.processQueue now limit = s ∨
    ∃ job rest, s.isRunning = false ∧ s.jobQueue.runningJob = none ∧
      s.jobQueue.queue = job :: rest ∧
      (s.processQueue now limit = s.withQueue (rest ++ [job]) ∨
        s.turn now limit job = .run ∧ s.processQueue now limit = s.started job rest ∨
        job.retriesLeft = true ∧ s.processQueue now limit =
          s.withQueue (rest ++ [job.afterFailure now]) ∨
        job.retriesLeft = false ∧
          s.processQueue now limit = { s.withQueue rest with log := .failed job :: s.log }) := by
  rcases s with ⟨⟨queue, runningJob, uids⟩, isRunning, activeBackupJobs, tasks, running, log⟩
  unfold processQueue
  cases isRunning with
  | true => exact .inl rfl
  | false =>
      match runningJob, queue with
      | some _, _ => exact .inl rfl
      | none, [] => exact .inl rfl
      | none, job :: rest =>
          cases hturn : turn ⟨⟨job :: rest, none, uids⟩, false, activeBackupJobs, tasks, running,
            log⟩ now limit job with
          | limitReached =>
              left
              simp [JobQueue.getNext, hturn, JobQueue.requeueAtFront]
          | delayed =>
              refine .inr ⟨job, rest, rfl, rfl, rfl, .inl ?_⟩
              simp [JobQueue.getNext, hturn, JobQueue.reQueue, withQueue]
          | run =>
              refine .inr ⟨job, rest, rfl, rfl, rfl, .inr (.inl ⟨hturn, ?_⟩)⟩
              simp [JobQueue.getNext, hturn, started]
          | noTask =>
              refine .inr ⟨job, rest, rfl, rfl, rfl, .inr (.inr ?_)⟩
              cases hretries : job.retriesLeft with
              | true =>
                  refine .inl ⟨rfl, ?_⟩
                  simp [JobQueue.getNext, hturn, fail, JobQueue.failJob, hretries,
                    JobQueue.reQueue, withQueue]
              | false =>
                  refine .inr ⟨rfl, ?_⟩
                  simp [JobQueue.getNext, hturn, fail, JobQueue.failJob, hretries, withQueue]

/-- The system once a task has ended, apart from the queue and the log. -/
def ended (s : System) (i : Nat) (job : Job) (jobQueue : JobQueue) (log : List Event) : System :=
  { s with
    jobQueue
    isRunning := false
    activeBackupJobs := if job.name = "Backup" then s.activeBackupJobs - 1 else s.activeBackupJobs
    running := s.running.eraseIdx i
    log }

/-- A task that settles leaves its job completed, failed, or queued again; the queue hears
nothing of an error that is `null` or `undefined`. -/
theorem settle_cases (s : System) (i now : Nat) (outcome : Outcome) :
    s.running[i]? = none ∧ s.settle i now outcome = s ∨
    ∃ job, s.running[i]? = some job ∧
      (outcome = .rejected none ∧ s.settle i now outcome = s.ended i job s.jobQueue s.log ∨
        (outcome.retryable && job.retriesLeft) = false ∧ outcome ≠ .rejected none ∧
          (∃ event, (event = .completed job ∨ event = .failed job) ∧
            s.settle i now outcome = s.ended i job s.jobQueue.completeJob (event :: s.log)) ∨
        (outcome.retryable && job.retriesLeft) = true ∧
          s.settle i now outcome =
            s.ended i job (s.jobQueue.reQueue (job.afterFailure now)) s.log) := by
  unfold settle
  match hjob : s.running[i]? with
  | none => exact .inl ⟨rfl, rfl⟩
  | some job =>
      refine .inr ⟨job, rfl, ?_⟩
      match outcome with
      | .resolved => exact .inr (.inl ⟨rfl, nofun, _, .inl rfl, rfl⟩)
      | .rejected none => exact .inl ⟨rfl, rfl⟩
      | .rejected (some error) =>
          right
          cases hcancel : error.isCancellation with
          | true =>
              left
              refine ⟨by simp [Outcome.retryable, hcancel], nofun, _, .inl rfl, ?_⟩
              simp [conclude, hcancel, ended]
          | false =>
              by_cases hfinal : error.retryable = some false
              · left
                refine ⟨by simp [Outcome.retryable, hfinal], nofun, _, .inr rfl, ?_⟩
                simp [conclude, hcancel, hfinal, ended]
              · cases hretries : job.retriesLeft with
                | false =>
                    left
                    refine ⟨by simp, nofun, _, .inr rfl, ?_⟩
                    simp [conclude, hcancel, hfinal, ended, fail, JobQueue.failJob, hretries,
                      JobQueue.completeJob]
                | true =>
                    right
                    refine ⟨by simp [Outcome.retryable, hcancel, hfinal], ?_⟩
                    simp [conclude, hcancel, hfinal, ended, fail, JobQueue.failJob, hretries]

end System

/-! ## The verdict on a job -/

/-- What becomes of a job whose task has ended. `stuck` is an error that is `null` or
`undefined`. -/
inductive Verdict where
  | completed
  | failed
  | again
  | stuck
  deriving DecidableEq

/-- The verdict of the processor and the queue together. -/
def Job.verdict (job : Job) : Outcome → Verdict
  | .resolved => .completed
  | .rejected none => .stuck
  | .rejected (some error) =>
      if error.isCancellation then .completed
      else if error.retryable = some false then .failed
      else if job.retriesLeft then .again
      else .failed

/-- A task that settles does with its job what the verdict says. -/
theorem System.settle_eq_verdict (s : System) {i : Nat} {job : Job} (now : Nat) (outcome : Outcome)
    (hjob : s.running[i]? = some job) :
    s.settle i now outcome =
      match job.verdict outcome with
      | .completed => s.ended i job s.jobQueue.completeJob (.completed job :: s.log)
      | .failed => s.ended i job s.jobQueue.completeJob (.failed job :: s.log)
      | .again => s.ended i job (s.jobQueue.reQueue (job.afterFailure now)) s.log
      | .stuck => s.ended i job s.jobQueue s.log := by
  unfold settle
  rw [hjob]
  match outcome with
  | .resolved => rfl
  | .rejected none => rfl
  | .rejected (some error) =>
      cases hcancel : error.isCancellation with
      | true => simp [Job.verdict, conclude, hcancel, ended]
      | false =>
          by_cases hfinal : error.retryable = some false
          · simp [Job.verdict, conclude, hcancel, hfinal, ended]
          · cases hretries : job.retriesLeft <;>
              simp [Job.verdict, conclude, hcancel, hfinal, hretries, ended, fail, JobQueue.failJob,
                JobQueue.completeJob]

end Pluton.Jobs
