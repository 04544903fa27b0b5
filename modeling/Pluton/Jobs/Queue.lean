-- SUMMARY: `JobQueue`: the waiting jobs, the slot of the running job, and the operations on both.
import Pluton.Json

/-!
# The job queue

`backend/src/jobs/JobQueue.ts`. A job that runs is held by the processor; the queue only
remembers it in a slot, which `remove` may empty while the job goes on.

A payload is any JSON value or `undefined`. Two payloads have the same text exactly when
they are the same value, members in order, and `undefined` has no text.
-/
namespace Pluton.Jobs

/-- `id` numbers the ids that `generateUID` makes. -/
structure Job where
  id : Nat
  name : String
  payload : Json
  attempts : Nat := 0
  maxAttempts : Int
  retryDelay : Int
  lastAttempt : Nat := 0

/-- `payload?.planId`, when it is a text. -/
def planIdOf : Json → Option String
  | .obj fields =>
      match Json.field fields "planId" with
      | some (.str planId) => some planId
      | _ => none
  | _ => none

/-- A payload that `payload || {}` replaces. -/
def falsy : Option Json → Bool
  | none | some .null | some (.bool false) => true
  | some (.num value) => value == 0
  | some (.str text) => text == ""
  | _ => false

/-- `payload || {}` -/
def orEmpty : Option Json → Json
  | some payload => if falsy (some payload) then .obj [] else payload
  | none => .obj []

namespace Job

/-- The job is one that `remove(name, planId)` looks for. -/
def isFor (job : Job) (name planId : String) : Bool :=
  job.name == name && planIdOf job.payload == some planId

/-- `j.name === jobName && JSON.stringify(j.payload) === JSON.stringify(payload)` -/
def matches_ (job : Job) (name : String) (payload : Option Json) : Bool :=
  job.name == name && some job.payload == payload

/-- The job after a failed attempt. -/
def afterFailure (job : Job) (now : Nat) : Job :=
  { job with attempts := job.attempts + 1, lastAttempt := now }

/-- `job.attempts < job.maxAttempts` after a failed attempt. -/
def retriesLeft (job : Job) : Bool := (job.attempts + 1 : Int) < job.maxAttempts

end Job

structure JobQueue where
  queue : List Job := []
  runningJob : Option Job := none
  /-- How many ids have been made. -/
  uids : Nat := 0

namespace JobQueue

variable (q : JobQueue)

def reQueue (job : Job) : JobQueue := { q with queue := q.queue ++ [job], runningJob := none }

def requeueAtFront (job : Job) : JobQueue := { q with queue := job :: q.queue, runningJob := none }

def getNext : Option (Job × JobQueue) :=
  match q.runningJob, q.queue with
  | none, job :: rest => some (job, { q with queue := rest, runningJob := some job })
  | _, _ => none

def completeJob : JobQueue := { q with runningJob := none }

/-- Whether the job has failed for good, and the queue afterwards. -/
def failJob (job : Job) (now : Nat) : Bool × JobQueue :=
  if job.retriesLeft then (false, q.reQueue (job.afterFailure now))
  else (true, { q with runningJob := none })

def isPresent (name : String) (payload : Option Json) : Bool :=
  q.queue.any (·.matches_ name payload) || q.runningJob.any (·.matches_ name payload)

def newJob (name : String) (payload : Option Json) (maxAttempts retryDelay : Int) : Job :=
  { id := q.uids, name, payload := orEmpty payload, maxAttempts, retryDelay }

def addJob (name : String) (payload : Option Json) (maxAttempts retryDelay : Int)
    (isPriority : Bool) : JobQueue :=
  if q.isPresent name payload then q
  else
    let job := q.newJob name payload maxAttempts retryDelay
    { q with queue := if isPriority then job :: q.queue else q.queue ++ [job], uids := q.uids + 1 }

/-- The jobs that `remove` takes away. -/
def removed (name planId : String) : List Job :=
  q.queue.filter (·.isFor name planId) ++ (q.runningJob.filter (·.isFor name planId)).toList

def remove (name planId : String) : JobQueue :=
  { q with
    queue := q.queue.filter fun job => !job.isFor name planId
    runningJob := q.runningJob.filter fun job => !job.isFor name planId }

end JobQueue

/-! ## Stored payloads -/

theorem orEmpty_of_not_falsy {payload : Option Json} (h : falsy payload = false) :
    some (orEmpty payload) = payload := by
  cases payload with
  | none => cases h
  | some held => simp [orEmpty, h]

theorem orEmpty_of_falsy {payload : Option Json} (h : falsy payload = true) :
    orEmpty payload = .obj [] := by
  cases payload with
  | none => rfl
  | some held => simp [orEmpty, h]

theorem falsy_orEmpty (payload : Option Json) : falsy (some (orEmpty payload)) = false := by
  cases h : falsy payload with
  | true => rw [orEmpty_of_falsy h]; rfl
  | false => rw [orEmpty_of_not_falsy h]; exact h

@[simp] theorem Job.isFor_afterFailure (job : Job) (now : Nat) (name planId : String) :
    (job.afterFailure now).isFor name planId = job.isFor name planId := rfl

/-! ## Members of the queue -/

namespace JobQueue

variable {q : JobQueue} {name planId : String} {payload : Option Json}
  {maxAttempts retryDelay : Int} {isPriority : Bool}

theorem mem_addJob {job : Job}
    (h : job ∈ (q.addJob name payload maxAttempts retryDelay isPriority).queue) :
    job ∈ q.queue ∨ job = q.newJob name payload maxAttempts retryDelay := by
  unfold addJob at h
  split at h
  · exact .inl h
  · cases isPriority with
    | true => exact (List.mem_cons.mp h).symm
    | false =>
        rcases List.mem_append.mp h with hold | hnew
        · exact .inl hold
        · exact .inr (List.mem_singleton.mp hnew)

theorem mem_remove {job : Job} :
    job ∈ (q.remove name planId).queue ↔ job ∈ q.queue ∧ job.isFor name planId = false := by
  simp [remove]

end JobQueue

end Pluton.Jobs
