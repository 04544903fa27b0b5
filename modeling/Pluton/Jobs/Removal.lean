-- SUMMARY: Exactly when a removed job stays out of the queue, over all orders.
import Pluton.Jobs.Processor
import Pluton.Run

/-!
# A removed job stays removed

`remove` empties the slot of the running job, but the processor goes on to hold the job.
When its attempt fails, the processor queues it again unless the failure is final.
-/
namespace Pluton.Jobs

/-- Jobs of this name and plan were removed, and none has been added since. -/
def withdrawn (name planId : String) : List Event → Bool
  | [] => false
  | .removed name' planId' _ :: log =>
      (name' == name && planId' == planId) || withdrawn name planId log
  | .added name' payload _ :: log =>
      !(name' == name && planIdOf (orEmpty payload) == some planId) && withdrawn name planId log
  | _ :: log => withdrawn name planId log

/-- The job is one of those that were removed. -/
def Job.withdrawn (job : Job) (log : List Event) : Bool :=
  match planIdOf job.payload with
  | some planId => Jobs.withdrawn job.name planId log
  | none => false

/-- No task was started for a removed job. -/
def startsKept : List Event → Bool
  | [] => true
  | .started job :: log => !job.withdrawn log && startsKept log
  | _ :: log => startsKept log

/-- The queue holds no removed job, and no task was started for one. -/
def RemovedStay (s : System) : Prop :=
  (∀ job ∈ s.jobQueue.queue, job.withdrawn s.log = false) ∧ startsKept s.log = true

instance (s : System) : Decidable (RemovedStay s) := inferInstanceAs (Decidable (_ ∧ _))

/-- No task of a removed job ends in a failure that is retried. -/
def NoRetryOfRemoved (s : System) : Label → Prop
  | .settle i _ outcome =>
      ∀ job, s.running[i]? = some job → job.withdrawn s.log = true →
        (outcome.retryable && job.retriesLeft) = false
  | _ => True

/-! ## Logs -/

theorem Job.withdrawn_eq {job : Job} {planId : String} (h : planIdOf job.payload = some planId)
    (log : List Event) :
    job.withdrawn log = Jobs.withdrawn job.name planId log := by
  simp [Job.withdrawn, h]

/-- Only a removal or an addition changes which jobs are removed. -/
theorem Job.withdrawn_cons {job : Job} {event : Event} {log : List Event}
    (hadded : ∀ name payload made, event ≠ .added name payload made)
    (hremoved : ∀ name planId jobs, event ≠ .removed name planId jobs) :
    job.withdrawn (event :: log) = job.withdrawn log := by
  unfold Job.withdrawn
  cases planIdOf job.payload with
  | none => rfl
  | some planId =>
      cases event with
      | added name payload made => exact absurd rfl (hadded name payload made)
      | removed name planId jobs => exact absurd rfl (hremoved name planId jobs)
      | started | completed | failed => rfl

theorem Job.withdrawn_started (job started : Job) (log : List Event) :
    job.withdrawn (.started started :: log) = job.withdrawn log := withdrawn_cons nofun nofun

theorem Job.withdrawn_completed (job completed : Job) (log : List Event) :
    job.withdrawn (.completed completed :: log) = job.withdrawn log := withdrawn_cons nofun nofun

theorem Job.withdrawn_failed (job failed : Job) (log : List Event) :
    job.withdrawn (.failed failed :: log) = job.withdrawn log := withdrawn_cons nofun nofun

@[simp] theorem Job.withdrawn_afterFailure (job : Job) (now : Nat) (log : List Event) :
    (job.afterFailure now).withdrawn log = job.withdrawn log := rfl

/-- A job that an addition leaves removed was removed before. -/
theorem Job.withdrawn_of_added {job : Job} {name : String} {payload : Option Json}
    {made : Option Job} {log : List Event}
    (h : job.withdrawn (.added name payload made :: log) = true) : job.withdrawn log = true := by
  cases hplan : planIdOf job.payload with
  | none => simp [Job.withdrawn, hplan] at h
  | some planId =>
      rw [withdrawn_eq hplan] at h ⊢
      simp only [Jobs.withdrawn, Bool.and_eq_true] at h
      exact h.2

/-- The job that an addition makes is not a removed one. -/
theorem Job.withdrawn_newJob (q : JobQueue) (name : String) (payload : Option Json)
    (maxAttempts retryDelay : Int) (made : Option Job) (log : List Event) :
    (q.newJob name payload maxAttempts retryDelay).withdrawn
      (.added name payload made :: log) = false := by
  cases hplan : planIdOf (orEmpty payload) with
  | none => simp [Job.withdrawn, JobQueue.newJob, hplan]
  | some planId =>
      have heq : planIdOf (q.newJob name payload maxAttempts retryDelay).payload = some planId :=
        hplan
      rw [withdrawn_eq heq]
      simp [Jobs.withdrawn, JobQueue.newJob, hplan]

/-- A job that a removal does not look for is removed only if it was. -/
theorem Job.withdrawn_of_removed {job : Job} {name planId : String} {jobs : List Job}
    {log : List Event} (hother : job.isFor name planId = false) :
    job.withdrawn (.removed name planId jobs :: log) = job.withdrawn log := by
  cases hplan : planIdOf job.payload with
  | none => simp [Job.withdrawn, hplan]
  | some planId' =>
      rw [withdrawn_eq hplan, withdrawn_eq hplan]
      simp only [Jobs.withdrawn, Bool.or_eq_right_iff_imp, Bool.and_eq_true, beq_iff_eq]
      rintro ⟨rfl, rfl⟩
      simp [Job.isFor, hplan] at hother

/-! ## Steps -/

variable {s : System}

theorem removedStay_addJob (h : RemovedStay s) (name : String) (payload : Option Json)
    (maxAttempts retryDelay : Int) (isPriority : Bool) :
    RemovedStay (s.addJob name payload maxAttempts retryDelay isPriority) := by
  refine ⟨?_, h.2⟩
  intro job hjob
  rcases JobQueue.mem_addJob hjob with hold | rfl
  · apply Bool.eq_false_iff.mpr
    intro hwithdrawn
    have hbefore := Job.withdrawn_of_added hwithdrawn
    rw [h.1 job hold] at hbefore
    cases hbefore
  · exact Job.withdrawn_newJob _ _ _ _ _ _ _

theorem removedStay_remove (h : RemovedStay s) (name planId : String) :
    RemovedStay (s.remove name planId) := by
  refine ⟨?_, h.2⟩
  intro job hjob
  obtain ⟨hold, hother⟩ := JobQueue.mem_remove.mp hjob
  exact (Job.withdrawn_of_removed hother).trans (h.1 job hold)

theorem removedStay_processQueue (h : RemovedStay s) (now limit : Nat) :
    RemovedStay (s.processQueue now limit) := by
  rcases s.processQueue_cases now limit with hidle | ⟨job, rest, -, -, hqueue, hcases⟩
  · rw [hidle]
    exact h
  · have hjob : job.withdrawn s.log = false := h.1 job (hqueue ▸ List.mem_cons_self)
    have hrest : ∀ other ∈ rest, other.withdrawn s.log = false := fun other hother =>
      h.1 other (hqueue ▸ List.mem_cons_of_mem job hother)
    rcases hcases with heq | ⟨-, heq⟩ | ⟨-, heq⟩ | ⟨-, heq⟩ <;> rw [heq]
    · exact ⟨List.forall_mem_append.mpr ⟨hrest, List.forall_mem_singleton.mpr hjob⟩, h.2⟩
    · refine ⟨fun other hother => (other.withdrawn_started job s.log).trans (hrest other hother),
        ?_⟩
      simp only [System.started, startsKept, hjob, h.2, Bool.not_false, Bool.and_self]
    · exact ⟨List.forall_mem_append.mpr ⟨hrest, List.forall_mem_singleton.mpr hjob⟩, h.2⟩
    · exact ⟨fun other hother => (other.withdrawn_failed job s.log).trans (hrest other hother), h.2⟩

/-- What a settled task leaves is kept exactly when no removed job is queued again. -/
theorem removedStay_settle (h : RemovedStay s) (i now : Nat) (outcome : Outcome) :
    RemovedStay (s.settle i now outcome) ↔ NoRetryOfRemoved s (.settle i now outcome) := by
  rcases s.settle_cases i now outcome with
    ⟨hnone, hidle⟩ | ⟨job, hjob, ⟨rfl, heq⟩ | ⟨hfinal, -, event, hevent, heq⟩ | ⟨hretry, heq⟩⟩
  · rw [hidle]
    simp [h, NoRetryOfRemoved, hnone]
  · rw [heq]
    refine iff_of_true h ?_
    intro other _ _
    rfl
  · rw [heq]
    refine iff_of_true ⟨?_, ?_⟩ ?_
    · intro other hother
      rcases hevent with rfl | rfl
      · exact (other.withdrawn_completed job s.log).trans (h.1 other hother)
      · exact (other.withdrawn_failed job s.log).trans (h.1 other hother)
    · rcases hevent with rfl | rfl <;> exact h.2
    · intro other hother _
      cases hjob.symm.trans hother
      exact hfinal
  · rw [heq]
    constructor
    · intro hafter other hother hwithdrawn
      cases hjob.symm.trans hother
      have hback :=
        hafter.1 (job.afterFailure now) (List.mem_append_right _ (List.mem_singleton.mpr rfl))
      rw [Job.withdrawn_afterFailure, show (s.ended i job _ s.log).log = s.log from rfl,
        hwithdrawn] at hback
      cases hback
    · intro hok
      have hjob' : job.withdrawn s.log = false := by
        apply Bool.eq_false_iff.mpr
        intro hwithdrawn
        rw [hok job hjob hwithdrawn] at hretry
        cases hretry
      exact ⟨List.forall_mem_append.mpr ⟨h.1, List.forall_mem_singleton.mpr hjob'⟩, h.2⟩

theorem removedStay_step (h : RemovedStay s) (l : Label) :
    RemovedStay (s.step l) ↔ NoRetryOfRemoved s l := by
  cases l with
  | add name payload maxAttempts retryDelay =>
      exact iff_of_true (removedStay_addJob h _ _ _ _ _) trivial
  | addPriorityJob name payload maxAttempts retryDelay =>
      exact iff_of_true (removedStay_addJob h _ _ _ _ _) trivial
  | remove name planId => exact iff_of_true (removedStay_remove h name planId) trivial
  | addTask name => exact iff_of_true h trivial
  | processQueue now limit => exact iff_of_true (removedStay_processQueue h now limit) trivial
  | settle i now outcome => exact removedStay_settle h i now outcome

/-- Removed jobs stay removed throughout a run exactly when no removed job ends in a failure
that is retried. -/
theorem removed_jobs_stay_removed (tasks : List String) (ls : List Label) :
    (∀ pre, pre <+: ls → RemovedStay (System.run tasks pre)) ↔
      Run.Along System.step NoRetryOfRemoved { tasks } ls := by
  have hstart : RemovedStay { tasks } := ⟨fun _ hjob => absurd hjob List.not_mem_nil, rfl⟩
  exact (Run.along_iff_prefixes (fun (s : System) (h : RemovedStay s) => h)
    (fun s l h hok => (removedStay_step h l).mpr hok) (fun s l h hafter =>
      (removedStay_step h l).mp hafter) hstart).symm

/-! ## A removal during an attempt that fails -/

/-- The job of a plan is removed while its first attempt is under way; the attempt then fails. -/
def removedDuringAttempt : List Label :=
  [.add "Backup" (some (.obj [("planId", .str "plan"), ("backupId", .str "backup")])) 5 60000,
    .processQueue 0 2, .remove "Backup" "plan",
    .settle 0 1000 (.rejected (some ⟨"restic failed", none⟩))]

/-- The job is in the queue again, and a later tick starts it. -/
theorem removed_job_comes_back :
    ¬ RemovedStay (System.run ["Backup"] removedDuringAttempt) ∧
      startsKept (System.run ["Backup"] (removedDuringAttempt ++ [.processQueue 70000 2])).log =
        false := by
  decide +kernel

end Pluton.Jobs
