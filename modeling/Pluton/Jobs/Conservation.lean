-- SUMMARY: Exactly when no job is held twice, started too often or lost, over all orders.
import Pluton.Jobs.Processor
import Pluton.Run

/-!
# No job twice, and none lost

The jobs that the queue answers for are those that wait and the one whose task is under
way. The invariant is about these as a whole, whatever their order; `processQueue` and the
end of a task only reorder them, count an attempt, or conclude one of them.
-/
namespace Pluton.Jobs

/-! ## What the log says of a job -/

/-- The jobs that were made, latest first. -/
def made : List Event → List Job
  | [] => []
  | .added _ _ (some job) :: log => job :: made log
  | _ :: log => made log

/-- How often the task of a job was started. -/
def starts (id : Nat) : List Event → Nat
  | [] => 0
  | .started job :: log => starts id log + if job.id = id then 1 else 0
  | _ :: log => starts id log

/-- The job was completed or failed for good. -/
def concluded (id : Nat) : List Event → Bool
  | [] => false
  | .completed job :: log | .failed job :: log => job.id == id || concluded id log
  | _ :: log => concluded id log

/-- The job was removed at some time. -/
def takenOut (id : Nat) : List Event → Bool
  | [] => false
  | .removed _ _ jobs :: log => jobs.any (·.id == id) || takenOut id log
  | _ :: log => takenOut id log

theorem concluded_cons {id : Nat} {event : Event} {log : List Event} (h : concluded id log = true) :
    concluded id (event :: log) = true := by
  cases event <;> simp [concluded, h]

theorem takenOut_cons {id : Nat} {event : Event} {log : List Event} (h : takenOut id log = true) :
    takenOut id (event :: log) = true := by
  cases event <;> simp [takenOut, h]

/-! ## The property -/

/-- The jobs that wait, and those whose task is under way. -/
def System.held (s : System) : List Job := s.jobQueue.queue ++ s.running

structure Sound (s : System) : Prop where
  unique : (s.held.map fun job => (job.name, job.payload)).Nodup
  single : s.running.length ≤ 1
  bounded : ∀ job ∈ made s.log, (starts job.id s.log : Int) ≤ max job.maxAttempts 0
  conserved : ∀ job ∈ made s.log,
    (∃ other ∈ s.held, other.id = job.id) ∨ concluded job.id s.log = true ∨
    takenOut job.id s.log = true

/-- What a caller and a task may do: a job is not added without a payload while one of its
name waits or runs without one, nor while its own removed run is still under way; a job that
is started is allowed an attempt; and a task rejects with an error unless its job was removed. -/
def Admissible (s : System) : Label → Prop
  | .add name payload _ _ | .addPriorityJob name payload _ _ =>
      (falsy payload = true → ∀ job ∈ s.held, job.name = name → job.payload ≠ .obj []) ∧
        (s.jobQueue.runningJob = none → ∀ job ∈ s.running, job.name = name →
          some job.payload ≠ payload)
  | .processQueue now limit =>
      s.isRunning = false → ∀ job q, s.jobQueue.getNext = some (job, q) →
      s.turn now limit job = .run →
        1 ≤ job.maxAttempts
  | .settle i _ (.rejected none) => ∀ job, s.running[i]? = some job → takenOut job.id s.log = true
  | _ => True

/-! ## The jobs held -/

/-- What the invariant says of a job is said of its entry. -/
def Job.entry (job : Job) : Nat × String × Json × Int :=
  (job.id, job.name, job.payload, job.maxAttempts)

@[simp] theorem Job.entry_afterFailure (job : Job) (now : Nat) :
    (job.afterFailure now).entry = job.entry := rfl

/-- The jobs held, against what the log says. -/
structure Ledger (log : List Event) (jobs : List Job) : Prop where
  unique : (jobs.map fun job => (job.name, job.payload)).Nodup
  ids : (jobs.map Job.id).Nodup
  origin : ∀ job ∈ jobs, ∃ first ∈ made log, first.id = job.id ∧ first.maxAttempts = job.maxAttempts
  unconcluded : ∀ job ∈ jobs, concluded job.id log = false
  stored : ∀ job ∈ jobs, falsy (some job.payload) = false
  conserved : ∀ job ∈ made log,
    (∃ other ∈ jobs, other.id = job.id) ∨ concluded job.id log = true ∨ takenOut job.id log = true

namespace Ledger

variable {log log' : List Event} {jobs jobs' : List Job} {job : Job}

theorem perm (h : Ledger log jobs) (hperm : (jobs.map Job.entry).Perm (jobs'.map Job.entry)) :
    Ledger log jobs' := by
  have hback : ∀ job' ∈ jobs', ∃ old ∈ jobs, old.entry = job'.entry := fun job' hjob' =>
    List.mem_map.mp (hperm.mem_iff.mpr (List.mem_map_of_mem hjob'))
  have hforth : ∀ old ∈ jobs, ∃ job' ∈ jobs', job'.entry = old.entry := fun old hold =>
    List.mem_map.mp (hperm.mem_iff.mp (List.mem_map_of_mem hold))
  refine ⟨?_, ?_, ?_, ?_, ?_, ?_⟩
  · have hmap := hperm.map fun entry => (entry.2.1, entry.2.2.1)
    simp only [List.map_map] at hmap
    exact hmap.nodup_iff.mp h.unique
  · have hmap := hperm.map fun entry => entry.1
    simp only [List.map_map] at hmap
    exact hmap.nodup_iff.mp h.ids
  · intro job' hjob'
    obtain ⟨old, hold, hentry⟩ := hback job' hjob'
    obtain ⟨first, hfirst, hid, hmax⟩ := h.origin old hold
    simp only [Job.entry, Prod.mk.injEq] at hentry
    exact ⟨first, hfirst, hid.trans hentry.1, hmax.trans hentry.2.2.2⟩
  · intro job' hjob'
    obtain ⟨old, hold, hentry⟩ := hback job' hjob'
    simp only [Job.entry, Prod.mk.injEq] at hentry
    exact hentry.1 ▸ h.unconcluded old hold
  · intro job' hjob'
    obtain ⟨old, hold, hentry⟩ := hback job' hjob'
    simp only [Job.entry, Prod.mk.injEq] at hentry
    exact hentry.2.2.1 ▸ h.stored old hold
  · intro first hfirst
    refine (h.conserved first hfirst).imp ?_ id
    rintro ⟨old, hold, hid⟩
    obtain ⟨job', hjob', hentry⟩ := hforth old hold
    simp only [Job.entry, Prod.mk.injEq] at hentry
    exact ⟨job', hjob', hentry.1.trans hid⟩

/-- An event that neither makes, concludes nor removes a job. -/
theorem log_eq (h : Ledger log jobs) (hmade : made log' = made log)
    (hconcluded : ∀ id, concluded id log' = concluded id log)
    (htaken : ∀ id, takenOut id log' = takenOut id log) :
    Ledger log' jobs where
  unique := h.unique
  ids := h.ids
  origin := hmade ▸ h.origin
  unconcluded := fun job hjob => (hconcluded job.id).trans (h.unconcluded job hjob)
  stored := h.stored
  conserved := by
    intro first hfirst
    rw [hconcluded, htaken]
    exact h.conserved first (hmade ▸ hfirst)

theorem add (h : Ledger log jobs) {name : String} {payload : Option Json}
    (hunique : ∀ other ∈ jobs, other.name = job.name → other.payload ≠ job.payload)
    (hid : ∀ first ∈ made log, first.id ≠ job.id) (hstored : falsy (some job.payload) = false)
    (hconcluded : concluded job.id log = false) :
    Ledger (.added name payload (some job) :: log) (job :: jobs) where
  unique := by
    rw [List.map_cons, List.nodup_cons]
    refine ⟨?_, h.unique⟩
    intro hmem
    obtain ⟨other, hother, heq⟩ := List.mem_map.mp hmem
    simp only [Prod.mk.injEq] at heq
    exact hunique other hother heq.1 heq.2
  ids := by
    rw [List.map_cons, List.nodup_cons]
    refine ⟨?_, h.ids⟩
    intro hmem
    obtain ⟨other, hother, heq⟩ := List.mem_map.mp hmem
    obtain ⟨first, hfirst, hid', -⟩ := h.origin other hother
    exact hid first hfirst (hid'.trans heq)
  origin := by
    intro other hother
    rcases List.mem_cons.mp hother with rfl | hold
    · exact ⟨other, List.mem_cons_self, rfl, rfl⟩
    · obtain ⟨first, hfirst, hsame⟩ := h.origin other hold
      exact ⟨first, List.mem_cons_of_mem _ hfirst, hsame⟩
  unconcluded := List.forall_mem_cons.mpr ⟨hconcluded, h.unconcluded⟩
  stored := List.forall_mem_cons.mpr ⟨hstored, h.stored⟩
  conserved := by
    intro first hfirst
    rcases List.mem_cons.mp hfirst with rfl | hold
    · exact .inl ⟨first, List.mem_cons_self, rfl⟩
    · refine (h.conserved first hold).imp ?_ id
      rintro ⟨other, hother, hsame⟩
      exact ⟨other, List.mem_cons_of_mem _ hother, hsame⟩

/-- Jobs are let go that are concluded or removed by then. -/
theorem drop (h : Ledger log jobs) (hsub : jobs'.Sublist jobs) (hmade : made log' = made log)
    (hkept : ∀ job ∈ jobs', concluded job.id log' = concluded job.id log)
    (hgrow : ∀ id, concluded id log = true → concluded id log' = true)
    (hgrow' : ∀ id, takenOut id log = true → takenOut id log' = true)
    (hgone : ∀ job ∈ jobs, job ∈ jobs' ∨ concluded job.id log' = true ∨
      takenOut job.id log' = true) :
    Ledger log' jobs' where
  unique := (hsub.map _).nodup h.unique
  ids := (hsub.map _).nodup h.ids
  origin := fun job hjob => hmade ▸ h.origin job (hsub.subset hjob)
  unconcluded := fun job hjob => (hkept job hjob).trans (h.unconcluded job (hsub.subset hjob))
  stored := fun job hjob => h.stored job (hsub.subset hjob)
  conserved := by
    intro first hfirst
    rcases h.conserved first (hmade ▸ hfirst) with ⟨other, hother, hsame⟩ | hold | hold
    · rcases hgone other hother with hkeep | hdone
      · exact .inl ⟨other, hkeep, hsame⟩
      · exact .inr (hsame ▸ hdone)
    · exact .inr (.inl (hgrow first.id hold))
    · exact .inr (.inr (hgrow' first.id hold))

/-- With one id for each job held, a job is not among the others. -/
theorem id_ne (h : Ledger log (job :: jobs)) : ∀ other ∈ jobs, other.id ≠ job.id := by
  intro other hother heq
  have hids := h.ids
  rw [List.map_cons, List.nodup_cons] at hids
  exact hids.1 (heq ▸ List.mem_map_of_mem hother)

theorem conclude (h : Ledger log (job :: jobs)) {event : Event}
    (hevent : event = .completed job ∨ event = .failed job) :
    Ledger (event :: log) jobs := by
  have hconcluded : ∀ id, concluded id (event :: log) = (job.id == id || concluded id log) := by
    rcases hevent with rfl | rfl <;> intro id <;> rfl
  refine h.drop (List.sublist_cons_self job jobs) ?_ ?_ (fun id => concluded_cons)
    (fun id => takenOut_cons) ?_
  · rcases hevent with rfl | rfl <;> rfl
  · intro other hother
    simp [hconcluded, (h.id_ne other hother).symm]
  · intro other hother
    rcases List.mem_cons.mp hother with rfl | hold
    · simp [hconcluded]
    · exact .inl hold

end Ledger

/-! ## The invariant -/

/-- The slot remembers the job whose task is under way, unless the job was removed. Without
one it is empty, or remembers a removed job whose task rejected with no error. -/
def Slot (s : System) : Prop :=
  (s.isRunning = false ∧ s.running = [] ∧
      ∀ job, s.jobQueue.runningJob = some job →
        takenOut job.id s.log = true ∧ falsy (some job.payload) = false) ∨
    ∃ job, s.isRunning = true ∧ s.running = [job] ∧
      (s.jobQueue.runningJob = some job ∨
        s.jobQueue.runningJob = none ∧ takenOut job.id s.log = true)

structure Inv (s : System) : Prop where
  ledger : Ledger s.log s.held
  slot : Slot s
  fresh : ∀ job ∈ made s.log, job.id < s.jobQueue.uids
  distinct : ((made s.log).map Job.id).Nodup
  unused : ∀ id, s.jobQueue.uids ≤ id → starts id s.log = 0 ∧ concluded id s.log = false
  bounded : ∀ job ∈ made s.log, (starts job.id s.log : Int) ≤ max job.maxAttempts 0
  waiting : ∀ job ∈ s.jobQueue.queue,
    starts job.id s.log ≤ job.attempts ∧ (job.attempts = 0 ∨ (job.attempts : Int) < job.maxAttempts)
  underWay : ∀ job ∈ s.running, starts job.id s.log ≤ job.attempts + 1

theorem Slot.single {s : System} (h : Slot s) : s.running.length ≤ 1 := by
  rcases h with ⟨-, hrunning, -⟩ | ⟨job, -, hrunning, -⟩ <;> rw [hrunning] <;> simp

theorem Inv.sound {s : System} (h : Inv s) : Sound s where
  unique := h.ledger.unique
  single := h.slot.single
  bounded := h.bounded
  conserved := h.ledger.conserved

theorem inv_start (tasks : List String) : Inv { tasks } where
  ledger := ⟨.nil, .nil, nofun, nofun, nofun, nofun⟩
  slot := .inl ⟨rfl, rfl, nofun⟩
  fresh := nofun
  distinct := .nil
  unused := fun _ _ => ⟨rfl, rfl⟩
  bounded := nofun
  waiting := nofun
  underWay := nofun

/-- A job held was made, so its id is not a new one. -/
theorem Inv.id_lt {s : System} (h : Inv s) {job : Job} (hjob : job ∈ s.held) :
    job.id < s.jobQueue.uids := by
  obtain ⟨first, hfirst, hid, -⟩ := h.ledger.origin job hjob
  exact hid ▸ h.fresh first hfirst

/-- The first job of an id is the only one, so a job held is bound by its own limit. -/
theorem Inv.maxAttempts_eq {s : System} (h : Inv s) {job first : Job} (hjob : job ∈ s.held)
    (hfirst : first ∈ made s.log) (hid : first.id = job.id) :
    first.maxAttempts = job.maxAttempts := by
  obtain ⟨origin, horigin, hid', hmax⟩ := h.ledger.origin job hjob
  have hsame : first = origin :=
    List.inj_on_of_nodup_map h.distinct hfirst horigin (hid.trans hid'.symm)
  exact hsame ▸ hmax

/-! ## Additions -/

section Add

variable {s : System} {name : String} {payload : Option Json} (maxAttempts retryDelay : Int)
  (isPriority : Bool)

theorem Job.matches_iff {job : Job} :
    job.matches_ name payload = true ↔ job.name = name ∧ some job.payload = payload := by
  simp [Job.matches_]

/-- Whether an addition repeats a job that is held. -/
def Repeats (s : System) (name : String) (payload : Option Json) : Prop :=
  ∃ job ∈ s.held, job.name = name ∧ job.payload = orEmpty payload

/-- The condition on an addition. -/
def MayAdd (s : System) (name : String) (payload : Option Json) : Prop :=
  (falsy payload = true → ∀ job ∈ s.held, job.name = name → job.payload ≠ .obj []) ∧
    (s.jobQueue.runningJob = none → ∀ job ∈ s.running, job.name = name → some job.payload ≠ payload)

/-- Where the queue finds a job, the addition is harmless. -/
theorem mayAdd_of_present (h : Inv s) (hpresent : s.jobQueue.isPresent name payload = true) :
    MayAdd s name payload := by
  simp only [JobQueue.isPresent, Bool.or_eq_true, List.any_eq_true, Option.any_eq_true,
    Job.matches_iff] at hpresent
  constructor
  · intro hfalsy
    -- Nothing that is stored is falsy.
    exfalso
    rcases hpresent with ⟨job, hjob, -, hpayload⟩ | ⟨job, hslot, -, hpayload⟩
    · have hstored := h.ledger.stored job (List.mem_append_left _ hjob)
      rw [hpayload, hfalsy] at hstored
      cases hstored
    · have hstored : falsy (some job.payload) = false := by
        rcases h.slot with ⟨-, -, hidle⟩ | ⟨running, -, hrunning, hslot' | ⟨hslot', -⟩⟩
        · exact (hidle job hslot).2
        · cases hslot.symm.trans hslot'
          exact h.ledger.stored job (List.mem_append_right _ (hrunning ▸
            List.mem_singleton.mpr rfl))
        · cases hslot.symm.trans hslot'
      rw [hpayload, hfalsy] at hstored
      cases hstored
  · intro hslot job hjob hname hpayload
    rcases hpresent with ⟨other, hother, hname', hpayload'⟩ | ⟨other, hslot', -⟩
    · -- The job waits and runs at once.
      have hunique := h.ledger.unique
      rw [System.held, List.map_append, List.nodup_append] at hunique
      refine hunique.2.2 _ (List.mem_map_of_mem hother) _ (List.mem_map_of_mem hjob) ?_
      rw [hname, hname', Option.some.inj (hpayload.trans hpayload'.symm)]
    · cases hslot.symm.trans hslot'

/-- Where the queue finds none, the condition says that the job is not held. -/
theorem mayAdd_iff_of_absent (h : Inv s) (habsent : s.jobQueue.isPresent name payload = false) :
    MayAdd s name payload ↔ ¬ Repeats s name payload := by
  simp only [JobQueue.isPresent, Bool.or_eq_false_iff] at habsent
  have hqueue : ∀ job ∈ s.jobQueue.queue, job.name = name → some job.payload ≠ payload := by
    intro job hjob hname hpayload
    have hnone := List.any_eq_false.mp habsent.1 job hjob
    exact hnone (Job.matches_iff.mpr ⟨hname, hpayload⟩)
  cases hfalsy : falsy payload with
  | true =>
      rw [Repeats, orEmpty_of_falsy hfalsy]
      constructor
      · rintro ⟨hempty, -⟩ ⟨job, hjob, hname, hpayload⟩
        exact hempty hfalsy job hjob hname hpayload
      · intro hnone
        refine ⟨fun _ job hjob hname hpayload => hnone ⟨job, hjob, hname, hpayload⟩, ?_⟩
        intro _ job hjob _ hpayload
        have hstored := h.ledger.stored job (List.mem_append_right _ hjob)
        rw [hpayload, hfalsy] at hstored
        cases hstored
  | false =>
      have hsome := orEmpty_of_not_falsy hfalsy
      constructor
      · rintro ⟨-, hrunning⟩ ⟨job, hjob, hname, hpayload⟩
        have hpayload' : some job.payload = payload := hpayload ▸ hsome
        rcases List.mem_append.mp hjob with hwaits | hruns
        · exact hqueue job hwaits hname hpayload'
        · rcases h.slot with ⟨-, hidle, -⟩ | ⟨running, -, hbusy, hslot | ⟨hslot, -⟩⟩
          · rw [hidle] at hruns
            cases hruns
          · rw [hbusy] at hruns
            cases List.mem_singleton.mp hruns
            have hnone := habsent.2
            rw [hslot, Option.any_some, Job.matches_iff.mpr ⟨hname, hpayload'⟩] at hnone
            cases hnone
          · exact hrunning hslot job hruns hname hpayload'
      · intro hnone
        refine ⟨fun hfalsy' => absurd (hfalsy.symm.trans hfalsy') Bool.false_ne_true, ?_⟩
        intro _ job hjob hname hpayload
        refine hnone ⟨job, List.mem_append_right _ hjob, hname, ?_⟩
        exact Option.some.inj (hpayload.trans hsome.symm)

theorem addJob_of_present (hpresent : s.jobQueue.isPresent name payload = true) :
    s.addJob name payload maxAttempts retryDelay isPriority = { s with
      log := .added name payload none :: s.log } := by
  simp [System.addJob, JobQueue.addJob, hpresent]

theorem addJob_queue (habsent : s.jobQueue.isPresent name payload = false) :
    (s.addJob name payload maxAttempts retryDelay isPriority).jobQueue.queue.Perm
      (s.jobQueue.newJob name payload maxAttempts retryDelay :: s.jobQueue.queue) := by
  simp only [System.addJob, JobQueue.addJob, habsent, Bool.false_eq_true, if_false]
  cases isPriority with
  | true => exact .refl _
  | false => exact List.perm_append_singleton _ _

theorem addJob_log (habsent : s.jobQueue.isPresent name payload = false) :
    (s.addJob name payload maxAttempts retryDelay isPriority).log =
      .added name payload (some (s.jobQueue.newJob name payload maxAttempts retryDelay)) ::
        s.log := by
  simp [System.addJob, habsent]

theorem addJob_fields (habsent : s.jobQueue.isPresent name payload = false) :
    (s.addJob name payload maxAttempts retryDelay isPriority).jobQueue.uids = s.jobQueue.uids + 1 ∧
      (s.addJob name payload maxAttempts retryDelay isPriority).jobQueue.runningJob =
        s.jobQueue.runningJob := by
  simp [System.addJob, JobQueue.addJob, habsent]

theorem addJob_held (habsent : s.jobQueue.isPresent name payload = false) :
    (s.addJob name payload maxAttempts retryDelay isPriority).held.Perm
      (s.jobQueue.newJob name payload maxAttempts retryDelay :: s.held) :=
  (addJob_queue maxAttempts retryDelay isPriority habsent).append_right s.running

theorem inv_addJob_of_present (h : Inv s) (hpresent : s.jobQueue.isPresent name payload = true) :
    Inv (s.addJob name payload maxAttempts retryDelay isPriority) := by
  rw [addJob_of_present maxAttempts retryDelay isPriority hpresent]
  exact { h with ledger := h.ledger.log_eq rfl (fun _ => rfl) fun _ => rfl }

theorem inv_addJob_of_absent (h : Inv s) (habsent : s.jobQueue.isPresent name payload = false)
    (hnew : ¬ Repeats s name payload) :
    Inv (s.addJob name payload maxAttempts retryDelay isPriority) := by
  have hlog := addJob_log maxAttempts retryDelay isPriority habsent
  have hqueue := addJob_queue maxAttempts retryDelay isPriority habsent
  have hheld := addJob_held maxAttempts retryDelay isPriority habsent
  obtain ⟨huids, hslot⟩ := addJob_fields maxAttempts retryDelay isPriority habsent
  have hunused := h.unused s.jobQueue.uids (Nat.le_refl _)
  refine ⟨?_, ?_, ?_, ?_, ?_, ?_, ?_, ?_⟩
  · rw [hlog]
    refine Ledger.perm ?_ (hheld.symm.map Job.entry)
    -- The new job repeats no other, and its uid is fresh.
    refine h.ledger.add ?_ ?_ (falsy_orEmpty payload) hunused.2
    · intro other hother hname hpayload
      exact hnew ⟨other, hother, hname, hpayload⟩
    · intro first hfirst
      exact Nat.ne_of_lt (h.fresh first hfirst)
  · unfold Slot
    rw [hlog, hslot]
    exact h.slot
  · rw [hlog, huids]
    intro job hjob
    rcases List.mem_cons.mp hjob with rfl | hold
    · exact Nat.lt_succ_self _
    · exact Nat.lt_succ_of_lt (h.fresh job hold)
  · rw [hlog]
    refine List.nodup_cons.mpr ⟨?_, h.distinct⟩
    intro hmem
    obtain ⟨first, hfirst, hid⟩ := List.mem_map.mp hmem
    exact absurd hid (Nat.ne_of_lt (h.fresh first hfirst))
  · rw [hlog, huids]
    exact fun id hid => h.unused id (Nat.le_of_succ_le hid)
  · rw [hlog]
    intro job hjob
    rcases List.mem_cons.mp hjob with rfl | hold
    -- No task of the new uid has started yet.
    · have hzero : starts s.jobQueue.uids s.log = 0 := hunused.1
      simp only [starts, JobQueue.newJob, hzero]
      exact le_max_right _ _
    · exact h.bounded job hold
  · rw [hlog]
    intro job hjob
    rcases List.mem_cons.mp (hqueue.mem_iff.mp hjob) with rfl | hold
    · exact ⟨Nat.le_of_eq hunused.1, .inl rfl⟩
    · exact h.waiting job hold
  · rw [hlog]
    exact h.underWay

/-- An addition keeps the property exactly when it may be made. -/
theorem sound_addJob_iff (h : Inv s) :
    Sound (s.addJob name payload maxAttempts retryDelay isPriority) ↔ MayAdd s name payload := by
  cases hpresent : s.jobQueue.isPresent name payload with
  | true =>
      exact iff_of_true (inv_addJob_of_present maxAttempts retryDelay isPriority h hpresent).sound
        (mayAdd_of_present h hpresent)
  | false =>
      rw [mayAdd_iff_of_absent h hpresent]
      constructor
      · rintro hsound ⟨job, hjob, hname, hpayload⟩
        have hperm := (addJob_held maxAttempts retryDelay isPriority hpresent).map fun job =>
          (job.name, job.payload)
        have hunique := hperm.nodup_iff.mp hsound.unique
        rw [List.map_cons, List.nodup_cons] at hunique
        refine hunique.1 (List.mem_map.mpr ⟨job, hjob, ?_⟩)
        rw [hname, hpayload]
        rfl
      · intro hnew
        exact (inv_addJob_of_absent maxAttempts retryDelay isPriority h hpresent hnew).sound

theorem inv_addJob (h : Inv s) (hmay : MayAdd s name payload) :
    Inv (s.addJob name payload maxAttempts retryDelay isPriority) := by
  cases hpresent : s.jobQueue.isPresent name payload with
  | true => exact inv_addJob_of_present maxAttempts retryDelay isPriority h hpresent
  | false =>
      exact inv_addJob_of_absent maxAttempts retryDelay isPriority h hpresent
        ((mayAdd_iff_of_absent h hpresent).mp hmay)

end Add

/-! ## Removals -/

theorem takenOut_remove {s : System} {name planId : String} {job : Job}
    (hjob : job ∈ s.jobQueue.removed name planId) :
    takenOut job.id (s.remove name planId).log = true := by
  simp only [System.remove, takenOut, Bool.or_eq_true, List.any_eq_true]
  exact .inl ⟨job, hjob, beq_self_eq_true job.id⟩

theorem inv_remove {s : System} (h : Inv s) (name planId : String) :
    Inv (s.remove name planId) where
  ledger := by
    have hsub : ((s.remove name planId).jobQueue.queue ++ s.running).Sublist s.held :=
      List.filter_sublist.append_right s.running
    refine h.ledger.drop hsub rfl (fun _ _ => rfl) (fun _ => concluded_cons)
      (fun _ => takenOut_cons) ?_
    intro job hjob
    rcases List.mem_append.mp hjob with hwaits | hruns
    · cases hfor : job.isFor name planId with
      | true =>
          exact .inr (.inr (takenOut_remove
            (List.mem_append_left _ (List.mem_filter.mpr ⟨hwaits, hfor⟩))))
      | false => exact .inl (List.mem_append_left _ (JobQueue.mem_remove.mpr ⟨hwaits, hfor⟩))
    · exact .inl (List.mem_append_right _ hruns)
  slot := by
    rcases h.slot with ⟨hrunning, hnone, hidle⟩ | ⟨job, hrunning, hsome, hslot⟩
    · refine .inl ⟨hrunning, hnone, ?_⟩
      intro job hjob
      obtain ⟨htaken, hstored⟩ := hidle job (Option.filter_eq_some_iff.mp hjob).1
      exact ⟨takenOut_cons htaken, hstored⟩
    · refine .inr ⟨job, hrunning, hsome, ?_⟩
      rcases hslot with hslot | ⟨hslot, htaken⟩
      · cases hfor : job.isFor name planId with
        | true =>
            refine .inr ⟨by simp [System.remove, JobQueue.remove, hslot, hfor], takenOut_remove ?_⟩
            simp [JobQueue.removed, hslot, hfor]
        | false => exact .inl (by simp [System.remove, JobQueue.remove, hslot, hfor])
      · exact .inr ⟨by simp [System.remove, JobQueue.remove, hslot], takenOut_cons htaken⟩
  fresh := h.fresh
  distinct := h.distinct
  unused := h.unused
  bounded := h.bounded
  waiting := fun job hjob => h.waiting job (JobQueue.mem_remove.mp hjob).1
  underWay := h.underWay

/-! ## Ticks -/

variable {rest : List Job}

/-- A job is put in the place of the first that waits, and counts as
many attempts as it has made. -/
theorem Inv.requeue {s : System} (h : Inv s) {job job' : Job} (hrunning : s.running = [])
    (hqueue : s.jobQueue.queue = job :: rest) (hentry : job'.entry = job.entry)
    (hstarts : starts job'.id s.log ≤ job'.attempts ∧ (job'.attempts = 0 ∨
      (job'.attempts : Int) < job'.maxAttempts)) :
    Inv (s.withQueue (rest ++ [job'])) where
  ledger := by
    refine h.ledger.perm ?_
    simp only [System.held, hrunning, hqueue, List.append_nil, System.withQueue,
      List.map_append, List.map_cons, List.map_nil, hentry]
    exact (List.perm_append_singleton job.entry (rest.map Job.entry)).symm
  slot := h.slot
  fresh := h.fresh
  distinct := h.distinct
  unused := h.unused
  bounded := h.bounded
  waiting := by
    intro other hother
    rcases List.mem_append.mp hother with hrest | hlast
    · exact h.waiting other (hqueue ▸ List.mem_cons_of_mem job hrest)
    · rw [List.mem_singleton.mp hlast]
      exact hstarts
  underWay := h.underWay

theorem starts_started (job : Job) (id : Nat) (log : List Event) :
    starts id (.started job :: log) = starts id log + if job.id = id then 1 else 0 := rfl

theorem Inv.started {s : System} (h : Inv s) {job : Job} (hrunning : s.running = [])
    (hqueue : s.jobQueue.queue = job :: rest) (hallowed : 1 ≤ job.maxAttempts) :
    Inv (s.started job rest) := by
  have hhead : job ∈ s.held := List.mem_append_left _ (hqueue ▸ List.mem_cons_self)
  have hwaiting := h.waiting job (hqueue ▸ List.mem_cons_self)
  have hledger : Ledger s.log (job :: rest) := by
    have hheld := h.ledger
    rwa [System.held, hrunning, List.append_nil, hqueue] at hheld
  have hother : ∀ other ∈ rest,
      starts other.id (s.started job rest).log = starts other.id s.log := by
    intro other hmem
    simp only [System.started, starts_started, if_neg (hledger.id_ne other hmem).symm, Nat.add_zero]
  refine ⟨?_, ?_, h.fresh, h.distinct, ?_, ?_, ?_, ?_⟩
  · have hperm : (job :: rest).Perm (s.started job rest).held := by
      simp only [System.held, System.started, hrunning, List.nil_append]
      exact (List.perm_append_singleton job rest).symm
    refine Ledger.perm ?_ (hperm.map Job.entry)
    exact hledger.log_eq rfl (fun _ => rfl) fun _ => rfl
  · exact .inr ⟨job, rfl, by simp [System.started, hrunning], .inl rfl⟩
  · intro id hid
    have hne : job.id ≠ id := fun heq => absurd (heq ▸ h.id_lt hhead) (Nat.not_lt.mpr hid)
    obtain ⟨hstarts, hconcluded⟩ := h.unused id hid
    exact ⟨by simp [System.started, starts_started, hstarts, hne], hconcluded⟩
  · intro first hfirst
    have hbound := h.bounded first hfirst
    simp only [System.started, starts_started]
    split
    · next hid =>
      -- The job has made fewer attempts than it is allowed.
      have hmax := h.maxAttempts_eq hhead hfirst hid.symm
      have hstarts := hwaiting.1
      rw [hid] at hstarts
      have hless := hwaiting.2
      omega
    · simpa using hbound
  · intro other hmem
    rw [hother other hmem]
    exact h.waiting other (hqueue ▸ List.mem_cons_of_mem job hmem)
  · intro other hmem
    simp only [System.started, hrunning, List.nil_append, List.mem_singleton] at hmem
    subst hmem
    simp only [System.started, starts_started, if_pos]
    exact Nat.succ_le_succ hwaiting.1

theorem Inv.failed {s : System} (h : Inv s) {job : Job} (hrunning : s.running = [])
    (hqueue : s.jobQueue.queue = job :: rest) :
    Inv { s.withQueue rest with log := .failed job :: s.log } := by
  have hledger : Ledger s.log (job :: rest) := by
    have hheld := h.ledger
    rwa [System.held, hrunning, List.append_nil, hqueue] at hheld
  have hhead : job ∈ s.held := List.mem_append_left _ (hqueue ▸ List.mem_cons_self)
  refine ⟨?_, h.slot, h.fresh, h.distinct, ?_, h.bounded, ?_, h.underWay⟩
  · simp only [System.held, System.withQueue, hrunning, List.append_nil]
    exact hledger.conclude (.inr rfl)
  · intro id hid
    have hne : job.id ≠ id := fun heq => absurd (heq ▸ h.id_lt hhead) (Nat.not_lt.mpr hid)
    obtain ⟨hstarts, hconcluded⟩ := h.unused id hid
    exact ⟨hstarts, by simp [concluded, hconcluded, hne]⟩
  · exact fun other hother => h.waiting other (hqueue ▸ List.mem_cons_of_mem job hother)

theorem Inv.running_nil {s : System} (h : Inv s) (hidle : s.isRunning = false) :
    s.running = [] := by
  rcases h.slot with ⟨-, hrunning, -⟩ | ⟨job, hbusy, -⟩
  · exact hrunning
  · rw [hidle] at hbusy
    cases hbusy

theorem getNext_eq_some {q q' : JobQueue} {job : Job} :
    q.getNext = some (job, q') ↔ q.runningJob = none ∧
      ∃ rest, q.queue = job :: rest ∧ { q with queue := rest, runningJob := some job } = q' := by
  rcases q with ⟨queue, runningJob, uids⟩
  unfold JobQueue.getNext
  cases runningJob with
  | some running => simp
  | none =>
      cases queue with
      | nil => simp
      | cons first rest =>
          simp only [Option.some.injEq, Prod.mk.injEq, List.cons.injEq, true_and]
          constructor
          · rintro ⟨rfl, rfl⟩
            exact ⟨rest, ⟨rfl, rfl⟩, rfl⟩
          · rintro ⟨rest', ⟨rfl, rfl⟩, rfl⟩
            exact ⟨rfl, rfl⟩

theorem processQueue_run {s : System} {now limit : Nat} {job : Job} (hidle : s.isRunning = false)
    (hslot : s.jobQueue.runningJob = none) (hqueue : s.jobQueue.queue = job :: rest)
    (hturn : s.turn now limit job = .run) :
    s.processQueue now limit = s.started job rest := by
  have hnext := getNext_eq_some.mpr ⟨hslot, rest, hqueue, rfl⟩
  simp [System.processQueue, hidle, hnext, hturn, System.started]

theorem inv_processQueue {s : System} (h : Inv s) {now limit : Nat}
    (hok : Admissible s (.processQueue now limit)) :
    Inv (s.processQueue now limit) := by
  rcases s.processQueue_cases now limit with hidle | ⟨job, rest, hidle, hslot, hqueue, hcases⟩
  · rw [hidle]
    exact h
  · have hrunning := h.running_nil hidle
    have hwaiting := h.waiting job (hqueue ▸ List.mem_cons_self)
    rcases hcases with heq | ⟨hturn, heq⟩ | ⟨hretries, heq⟩ | ⟨-, heq⟩ <;> rw [heq]
    · exact h.requeue hrunning hqueue rfl hwaiting
    · exact h.started hrunning hqueue
        (hok hidle job _ (getNext_eq_some.mpr ⟨hslot, rest, hqueue, rfl⟩) hturn)
    · refine h.requeue hrunning hqueue rfl ⟨Nat.le_succ_of_le hwaiting.1, .inr ?_⟩
      simpa [Job.retriesLeft, Job.afterFailure] using hretries
    · exact h.failed hrunning hqueue

/-- A job without an allowed attempt is started once too often. -/
theorem admissible_of_sound_processQueue {s : System} (h : Inv s) {now limit : Nat}
    (hsound : Sound (s.processQueue now limit)) : Admissible s (.processQueue now limit) := by
  intro hidle job q hnext hturn
  obtain ⟨hslot, rest, hqueue, -⟩ := getNext_eq_some.mp hnext
  rw [processQueue_run hidle hslot hqueue hturn] at hsound
  have hhead : job ∈ s.held := List.mem_append_left _ (hqueue ▸ List.mem_cons_self)
  obtain ⟨first, hfirst, hid, hmax⟩ := h.ledger.origin job hhead
  have hbound := hsound.bounded first hfirst
  simp only [System.started, starts_started, if_pos hid.symm] at hbound
  omega

/-! ## Tasks that end -/

theorem Inv.ended {s : System} (h : Inv s) {i : Nat} {job : Job} (hjob : s.running[i]? = some job) :
    s.isRunning = true ∧ s.running = [job] ∧ s.running.eraseIdx i = [] ∧
      (s.jobQueue.runningJob = some job ∨
        s.jobQueue.runningJob = none ∧ takenOut job.id s.log = true) := by
  rcases h.slot with ⟨-, hnone, -⟩ | ⟨running, hbusy, hrunning, hslot⟩
  · rw [hnone] at hjob
    cases hjob
  · rw [hrunning] at hjob
    cases i with
    | zero =>
        cases hjob
        exact ⟨hbusy, hrunning, by rw [hrunning]; rfl, hslot⟩
    | succ i => cases hjob

/-- The job that ends goes to the end of the queue, or is let go. -/
theorem Inv.held_perm {s : System} {job : Job} (hrunning : s.running = [job]) :
    s.held.Perm (job :: s.jobQueue.queue) := by
  rw [System.held, hrunning]
  exact List.perm_append_singleton job s.jobQueue.queue

theorem inv_settle {s : System} (h : Inv s) {i now : Nat} {outcome : Outcome}
    (hok : Admissible s (.settle i now outcome)) : Inv (s.settle i now outcome) := by
  rcases s.settle_cases i now outcome with
    ⟨-, hidle⟩ | ⟨job, hjob, hcases⟩
  · rw [hidle]
    exact h
  · obtain ⟨-, hrunning, hnone, hslot⟩ := h.ended hjob
    have hhead : job ∈ s.held := List.mem_append_right _ (hrunning ▸ List.mem_singleton.mpr rfl)
    have hledger : Ledger s.log (job :: s.jobQueue.queue) :=
      h.ledger.perm ((Inv.held_perm hrunning).map Job.entry)
    have hstored := h.ledger.stored job hhead
    rcases hcases with ⟨rfl, heq⟩ | ⟨-, -, event, hevent, heq⟩ | ⟨hretry, heq⟩ <;> rw [heq]
    · -- The task rejected with no error: its job had been removed.
      have htaken := hok job hjob
      refine ⟨?_, ?_, h.fresh, h.distinct, h.unused, h.bounded, h.waiting, ?_⟩
      · simp only [System.held, System.ended, hnone, List.append_nil]
        refine hledger.drop (List.sublist_cons_self job _) rfl (fun _ _ => rfl)
          (fun _ => id) (fun _ => id) ?_
        intro other hother
        rcases List.mem_cons.mp hother with rfl | hold
        · exact .inr (.inr htaken)
        · exact .inl hold
      · refine .inl ⟨rfl, hnone, ?_⟩
        intro other hother
        rcases hslot with hsome | ⟨hempty, -⟩
        · cases hsome.symm.trans hother
          exact ⟨htaken, hstored⟩
        · cases hempty.symm.trans hother
      · simp [System.ended, hnone]
    -- the job is over
    · have hmade : made (event :: s.log) = made s.log := by rcases hevent with rfl | rfl <;> rfl
      have hstarts : ∀ id, starts id (event :: s.log) = starts id s.log := by
        rcases hevent with rfl | rfl <;> intro id <;> rfl
      refine ⟨?_, .inl ⟨rfl, hnone, fun _ hother => by cases hother⟩, ?_, ?_, ?_, ?_, ?_, ?_⟩
      · simp only [System.held, System.ended, hnone, List.append_nil, JobQueue.completeJob]
        exact hledger.conclude hevent
      · simpa only [System.ended, hmade, JobQueue.completeJob] using h.fresh
      · simpa only [System.ended, hmade] using h.distinct
      · intro id hid
        have hne : job.id ≠ id := fun heq => absurd (heq ▸ h.id_lt hhead) (Nat.not_lt.mpr hid)
        obtain ⟨hzero, hconcluded⟩ := h.unused id hid
        refine ⟨(hstarts id).trans hzero, ?_⟩
        rcases hevent with rfl | rfl <;> simp [System.ended, concluded, hconcluded, hne]
      · simpa only [System.ended, hmade, hstarts] using h.bounded
      · simpa only [System.ended, hstarts, JobQueue.completeJob] using h.waiting
      · simp [System.ended, hnone]
    -- the job goes back to the end of the queue
    · obtain ⟨-, hretries⟩ := Bool.and_eq_true_iff.mp hretry
      refine ⟨?_, .inl ⟨rfl, hnone, fun _ hother => by cases hother⟩, h.fresh, h.distinct,
        h.unused, h.bounded, ?_, ?_⟩
      · simp only [System.held, System.ended, hnone, List.append_nil, JobQueue.reQueue]
        refine hledger.perm ?_
        simpa using (List.perm_append_singleton job.entry (s.jobQueue.queue.map Job.entry)).symm
      · intro other hother
        rcases List.mem_append.mp hother with hold | hlast
        · exact h.waiting other hold
        · rw [List.mem_singleton.mp hlast]
          have hstarts := h.underWay job (hrunning ▸ List.mem_singleton.mpr rfl)
          exact ⟨hstarts, .inr (by simpa [Job.retriesLeft, Job.afterFailure] using hretries)⟩
      · simp [System.ended, hnone]

/-- A job whose task rejects with no error is lost unless it was removed. -/
theorem admissible_of_sound_settle {s : System} (h : Inv s) {i now : Nat} {outcome : Outcome}
    (hsound : Sound (s.settle i now outcome)) : Admissible s (.settle i now outcome) := by
  match outcome with
  | .resolved | .rejected (some _) => exact trivial
  | .rejected none =>
      intro job hjob
      obtain ⟨-, hrunning, hnone, -⟩ := h.ended hjob
      have hhead : job ∈ s.held := List.mem_append_right _ (hrunning ▸ List.mem_singleton.mpr rfl)
      have hledger : Ledger s.log (job :: s.jobQueue.queue) :=
        h.ledger.perm ((Inv.held_perm hrunning).map Job.entry)
      have hafter : s.settle i now (.rejected none) = s.ended i job s.jobQueue s.log := by
        simp [System.settle, hjob, System.conclude, System.ended]
      rw [hafter] at hsound
      obtain ⟨first, hfirst, hid, -⟩ := h.ledger.origin job hhead
      rcases hsound.conserved first hfirst with ⟨other, hother, hsame⟩ | hconcluded | htaken
      · simp only [System.held, System.ended, hnone, List.append_nil] at hother
        exact absurd (hsame.trans hid) (hledger.id_ne other hother)
      · have hunconcluded := h.ledger.unconcluded job hhead
        rw [← hid, show concluded first.id s.log = true from hconcluded] at hunconcluded
        cases hunconcluded
      · exact hid ▸ htaken

/-! ## Whole runs -/

theorem inv_step {s : System} (h : Inv s) (l : Label) (hok : Admissible s l) : Inv (s.step l) := by
  cases l with
  | add name payload maxAttempts retryDelay => exact inv_addJob maxAttempts retryDelay false h hok
  | addPriorityJob name payload maxAttempts retryDelay =>
      exact inv_addJob maxAttempts retryDelay true h hok
  | remove name planId => exact inv_remove h name planId
  | addTask name => exact { h with }
  | processQueue now limit => exact inv_processQueue h hok
  | settle i now outcome => exact inv_settle h hok

theorem admissible_of_sound {s : System} (h : Inv s) (l : Label) (hsound : Sound (s.step l)) :
    Admissible s l := by
  cases l with
  | add name payload maxAttempts retryDelay =>
      exact (sound_addJob_iff maxAttempts retryDelay false h).mp hsound
  | addPriorityJob name payload maxAttempts retryDelay =>
      exact (sound_addJob_iff maxAttempts retryDelay true h).mp hsound
  | remove name planId => trivial
  | addTask name => trivial
  | processQueue now limit => exact admissible_of_sound_processQueue h hsound
  | settle i now outcome => exact admissible_of_sound_settle h hsound

/-- No job is held twice, started too often or lost throughout a run exactly when every step
is admissible. -/
theorem jobs_unique_and_conserved (tasks : List String) (ls : List Label) :
    (∀ pre, pre <+: ls → Sound (System.run tasks pre)) ↔
    Run.Along System.step Admissible { tasks } ls :=
  (Run.along_iff_prefixes (fun (s : System) (h : Inv s) => h.sound) (fun _ l h hok =>
    inv_step h l hok)
    (fun _ l h hsound => admissible_of_sound h l hsound) (inv_start tasks)).symm

/-! ## Jobs added without a payload -/

/-- The hourly recovery test is added twice before it runs. -/
def recoveryTestTwice : List Label :=
  [.add "RecoveryTest" none 1 60000, .add "RecoveryTest" none 1 60000]

/-- Two jobs wait with the same name and the same payload. -/
theorem recoveryTest_held_twice : ¬ Sound (System.run ["RecoveryTest"] recoveryTestTwice) := by
  intro h
  have hunique := h.unique
  revert hunique
  decide +kernel

end Pluton.Jobs
