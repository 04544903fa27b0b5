-- SUMMARY: The claims of replication jobs: one slot, owned finishes, settled jobs that stay.
import Mathlib.Data.List.Induction
import Pluton.Replication.Store

/-!
# Claims

Every call does one of four things to the table of jobs: nothing, a new pending job, a
claim while the slot is free, or a conditional update that moves jobs from one status
to another. Each invariant follows from that.
-/
namespace Pluton.Replication

open Except Namespaces ManagedReplicationStore

/-! ## What a call does to the jobs -/

/-- What an update that is not a claim may do to a job it changes. -/
structure Moved (db : Tables) (job job' : ManagedReplicationJob) : Prop where
  same : job'.toManagedReplicationEnqueue = job.toManagedReplicationEnqueue
  attempts : job'.attempts = job.attempts
  unsettled : job.status ≠ .completed ∧ job.status ≠ .uncertain
  idle : job'.status ≠ .running
  slot : job'.status.holdsSlot = true → job.status.holdsSlot = true
  verified : job'.status = .completed → ∃ snapshot, job'.destinationSnapshotId = some snapshot ∧
    fullId snapshot = true ∧ job'.verifiedAt.isSome = true
  blocking : job'.status.blocking = true → job.status.blocking = true ∨
    ∀ row, getDestination db job.binding.destinationFingerprint = some row →
      row.initState ≠ .detached

def newJob (input : ManagedReplicationEnqueue) (now : Nat) : ManagedReplicationJob :=
  { input with updatedAt := now }

/-- The pending job of that id, which a claim takes. -/
def pendingJob (id : String) (job : ManagedReplicationJob) : Bool :=
  job.id == id && job.status == .pending

inductive JobsChange (db db' : Tables) (events : List Event) : Prop where
  | same (hjobs : db'.jobs = db.jobs) (hevents : ∀ id token, Event.claimed id token ∉ events)
  | added (input : ManagedReplicationEnqueue) (now : Nat)
      (hnew : ∀ job ∈ db.jobs, job.id ≠ input.id)
      (hreserved : unreserved input.binding
        (getDestination db input.binding.destinationFingerprint) = false)
      (hjobs : db'.jobs = db.jobs ++ [newJob input now]) (hevents : events = [])
      (hdestinations : db'.destinations = db.destinations)
  | claimed (id token : String) (now : Nat) (hfree : ∀ job ∈ db.jobs, job.status.holdsSlot = false)
      (hjobs : db'.jobs = Table.update db.jobs (pendingJob id) (claimRow token now))
      (hevents : events = recorded (db.jobs.any (pendingJob id)) (.claimed id token))
      (hdestinations : db'.destinations = db.destinations)
  | moved (cond : ManagedReplicationJob → Bool)
      (set : ManagedReplicationJob → ManagedReplicationJob)
      (hmoved : ∀ job ∈ db.jobs, cond job = true → Moved db job (set job))
      (hjobs : db'.jobs = Table.update db.jobs cond set) (hevents : events = [])
      (hdestinations : db'.destinations = db.destinations)

variable {db db' : Tables} {events : List Event} {job : ManagedReplicationJob} {now : Nat}
  {id : String}

theorem finish_moved {id ownerToken : String} {result : Result}
    (hresult : (result.status == .completed && !fullId (result.destinationSnapshotId.getD "")) =
      false)
    (hjob : (job.id == id && job.ownerToken == some ownerToken && job.status == .running) = true) :
    Moved db job (finishRow result now job) := by
  simp only [Bool.and_eq_true, beq_iff_eq] at hjob
  obtain ⟨⟨-, -⟩, hrunning⟩ := hjob
  have hstatus : result.status.status ≠ .running := by cases result.status <;> decide
  refine { same := rfl, attempts := rfl, unsettled := by rw [hrunning]; decide, idle := hstatus,
           slot := fun _ => by rw [hrunning]; rfl, verified := ?_,
           blocking := fun _ => .inl (by rw [hrunning]; rfl) }
  intro hcompleted
  have houtcome : result.status = .completed := by
    change result.status.status = .completed at hcompleted
    cases hstatus : result.status <;> simp_all [Outcome.status]
  rw [houtcome, beq_self_eq_true, Bool.true_and, Bool.not_eq_false'] at hresult
  cases hsnapshot : result.destinationSnapshotId with
  | none =>
      rw [hsnapshot] at hresult
      exact absurd hresult (by decide +kernel)
  | some snapshot =>
      rw [hsnapshot, Option.getD_some] at hresult
      have hnonempty : snapshot.isEmpty = false := by
        cases hempty : snapshot.isEmpty with
        | false => rfl
        | true =>
            rw [String.isEmpty_iff.mp hempty] at hresult
            exact absurd hresult (by decide +kernel)
      refine ⟨snapshot, ?_, hresult, ?_⟩
      · simp [finishRow, nonempty, hsnapshot, hnonempty]
      · simp [finishRow, houtcome]

theorem retry_moved (hresolved : unresolved db (some job) = false)
    (hjob : (job.id == id && [Status.failed, .cancelled].contains job.status) = true) :
    Moved db job (retryRow now job) := by
  simp only [Bool.and_eq_true, List.contains_eq_mem, List.mem_cons, List.not_mem_nil, or_false,
    decide_eq_true_eq] at hjob
  obtain ⟨-, hstatus⟩ := hjob
  refine { same := rfl, attempts := rfl, unsettled := ?_, idle := ?_, slot := ?_,
           verified := ?_, blocking := ?_ }
  · rcases hstatus with h | h <;> rw [h] <;> decide
  · exact fun h => by cases h
  · exact fun h => by cases h
  · exact fun h => by cases h
  · refine fun _ => .inr ?_
    intro row hrow
    simp only [unresolved, Option.any_some, Option.map_some, Option.getD_some,
      Bool.or_eq_false_iff, hrow] at hresolved
    intro hdetached
    rw [hdetached] at hresolved
    cases hresolved.2

theorem cancelPending_moved (hjob : pendingJob id job = true) :
    Moved db job (cancelRow now job) := by
  simp only [pendingJob, Bool.and_eq_true, beq_iff_eq] at hjob
  obtain ⟨-, hpending⟩ := hjob
  exact { same := rfl, attempts := rfl, unsettled := by rw [hpending]; decide,
          idle := (fun h => by cases h),
          slot := (fun h => by cases h), verified := (fun h => by cases h),
          blocking := (fun h => by cases h) }

theorem markInterrupted_moved (hjob : (job.status == .running) = true) :
    Moved db job (interruptRow now job) := by
  have hrunning := beq_iff_eq.mp hjob
  exact { same := rfl, attempts := rfl, unsettled := by rw [hrunning]; decide,
          idle := (fun h => by cases h),
          slot := (fun _ => by rw [hrunning]; rfl), verified := (fun h => by cases h),
          blocking := (fun _ => .inl (by rw [hrunning]; rfl)) }

theorem enqueue_change {input : ManagedReplicationEnqueue} {sourceBound : Bool}
    (h : enqueue db input sourceBound now = .ok db') : JobsChange db db' [] := by
  unfold enqueue at h
  simp only [bind_eq_ok, refuseIf_eq_ok] at h
  obtain ⟨_, -, _, -, _, hreserved, h⟩ := h
  split at h
  · simp only [bind_eq_ok, refuseIf_eq_ok, pure_eq_ok] at h
    obtain ⟨_, -, rfl⟩ := h
    exact .same rfl (by simp)
  · unfold insertJob at h
    simp only [bind_eq_ok, refuseIf_eq_ok, pure_eq_ok, List.any_eq_false, beq_iff_eq] at h
    obtain ⟨_, hnew, rfl⟩ := h
    exact .added input now hnew hreserved rfl rfl rfl

theorem claim_change {id ownerToken : String} {reply : Tables × Option ManagedReplicationJob}
    (h : claim db id ownerToken now = .ok reply) :
    JobsChange db reply.1 (recorded reply.2.isSome (.claimed id ownerToken)) := by
  unfold claim at h
  simp only [bind_eq_ok, refuseIf_eq_ok] at h
  obtain ⟨_, -, h⟩ := h
  split at h
  · cases h
    exact .same rfl (by simp [recorded])
  · next hfree =>
      cases h
      simp only [List.any_eq_true, not_exists, not_and, Bool.not_eq_true] at hfree
      refine .claimed id ownerToken now hfree rfl ?_ rfl
      have hfound : (db.jobs.find? (pendingJob id)).isSome = db.jobs.any (pendingJob id) := by
        rw [Bool.eq_iff_iff, List.find?_isSome, List.any_eq_true]
      dsimp only
      rw [Option.isSome_map, ← hfound]
      rfl

theorem beginInitialization_jobs {fingerprint ownerToken : String} :
    (beginInitialization db fingerprint ownerToken).1.jobs = db.jobs := by
  unfold beginInitialization
  split
  · rfl
  · rfl

theorem finalizeInitialization_jobs {fingerprint ownerToken repositoryId : String} :
    (finalizeInitialization db fingerprint ownerToken repositoryId).1.jobs = db.jobs := by
  unfold finalizeInitialization
  split
  · rfl
  · rfl

theorem reserveDestination_jobs {binding : Destination} {planOwned exported : Except Failure Unit}
    (h : reserveDestination db binding planOwned exported now = .ok db') :
    db'.jobs = db.jobs := by
  unfold Pluton.Replication.ManagedReplicationStore.reserveDestination at h
  simp only [bind_eq_ok] at h
  obtain ⟨_, -, _, -, h⟩ := h
  split at h
  · simp only [bind_eq_ok, pure_eq_ok] at h
    obtain ⟨_, -, rfl⟩ := h
    rfl
  · unfold ManagedReplicationStore.insertDestination at h
    simp only [bind_eq_ok, pure_eq_ok] at h
    obtain ⟨_, -, _, -, _, -, rfl⟩ := h
    rfl

theorem getById_of_mem (hids : (db.jobs.map fun job => job.id).Nodup) (hjob : job ∈ db.jobs) :
    getById db job.id = some job :=
  Table.find?_key hids hjob

theorem run_change {call : Call} (hids : (db.jobs.map fun job => job.id).Nodup)
    (h : call.run db = .ok (db', events)) : JobsChange db db' events := by
  cases call with
  | reserveDestination binding planOwned exported now =>
      obtain ⟨next, hnext, heq⟩ := map_eq_ok.mp h
      cases heq
      exact .same (reserveDestination_jobs hnext) (by simp)
  | enqueue input sourceBound now =>
      obtain ⟨next, hnext, heq⟩ := map_eq_ok.mp h
      cases heq
      exact enqueue_change hnext
  | claim id ownerToken now =>
      obtain ⟨reply, hreply, heq⟩ := map_eq_ok.mp h
      cases heq
      exact claim_change hreply
  | beginInitialization fingerprint ownerToken =>
      cases h
      exact .same beginInitialization_jobs (by simp [recorded])
  | finalizeInitialization fingerprint ownerToken repositoryId =>
      cases h
      exact .same finalizeInitialization_jobs (by simp [recorded])
  | finish id ownerToken result now =>
      obtain ⟨reply, hreply, heq⟩ := map_eq_ok.mp h
      cases heq
      unfold finish at hreply
      simp only [bind_eq_ok, refuseIf_eq_ok, pure_eq_ok] at hreply
      obtain ⟨_, hresult, _, -, rfl⟩ := hreply
      -- `finish` moves only a running job of this owner.
      exact .moved _ _ (fun job _ hjob => finish_moved hresult hjob) rfl rfl rfl
  | retry id now =>
      obtain ⟨reply, hreply, heq⟩ := map_eq_ok.mp h
      cases heq
      unfold retry at hreply
      simp only [bind_eq_ok, refuseIf_eq_ok, pure_eq_ok] at hreply
      obtain ⟨_, hresolved, rfl⟩ := hreply
      refine .moved _ _ (fun job hmem hjob => ?_) rfl rfl rfl
      -- The ids are distinct, so the row that the update reaches is the one `getById` read.
      have hid : job.id = id := beq_iff_eq.mp (Bool.and_eq_true_iff.mp hjob).1
      rw [← hid, getById_of_mem hids hmem] at hresolved
      exact retry_moved hresolved hjob
  | cancelPending id now =>
      cases h
      exact .moved _ _ (fun job _ hjob => cancelPending_moved hjob) rfl rfl rfl
  | markInterrupted now =>
      cases h
      exact .moved _ _ (fun job _ hjob => markInterrupted_moved hjob) rfl rfl rfl
  | detach planId replicationId =>
      obtain ⟨next, hnext, heq⟩ := map_eq_ok.mp h
      cases heq
      unfold detach at hnext
      simp only [bind_eq_ok, refuseIf_eq_ok, pure_eq_ok] at hnext
      obtain ⟨_, -, rfl⟩ := hnext
      exact .same rfl (by simp)

/-! ## The invariant -/

/-- The tokens that claimed the job, oldest first. -/
def claims (log : List Event) (id : String) : List String :=
  log.filterMap fun
    | .claimed other token => if other == id then some token else none
    | _ => none

structure Claimed (w : World) : Prop where
  ids : (w.db.jobs.map fun job => job.id).Nodup
  slot : (w.db.jobs.filter fun job => job.status.holdsSlot).length ≤ 1
  attempts : ∀ job ∈ w.db.jobs, job.attempts = (claims w.log job.id).length
  owner : ∀ job ∈ w.db.jobs, job.status = .running → job.ownerToken = (claims w.log job.id).getLast?
  verified : ∀ job ∈ w.db.jobs, job.status = .completed →
    ∃ snapshot, job.destinationSnapshotId = some snapshot ∧
    fullId snapshot = true ∧ job.verifiedAt.isSome = true
  known : ∀ id token, Event.claimed id token ∈ w.log → ∃ job ∈ w.db.jobs, job.id = id

@[simp] theorem claims_append {log log' : List Event} :
    claims (log ++ log') id = claims log id ++ claims log' id := List.filterMap_append

theorem claims_eq_nil {log : List Event} (h : ∀ token, Event.claimed id token ∉ log) :
    claims log id = [] := by
  unfold claims
  rw [List.filterMap_eq_nil_iff]
  intro event hevent
  cases event with
  | claimed other token =>
      have hne : other ≠ id := fun heq => h token (heq ▸ hevent)
      simp [hne]
  | begun fingerprint => rfl
  | finalized fingerprint repositoryId => rfl

theorem claimed_start : Claimed .start where
  ids := List.nodup_nil
  slot := Nat.zero_le 1
  attempts _ h := by cases h
  owner _ h := by cases h
  verified _ h := by cases h
  known _ _ h := by cases h

section

variable {w : World}

theorem Claimed.same (hw : Claimed w) (hjobs : db'.jobs = w.db.jobs)
    (hevents : ∀ id token, Event.claimed id token ∉ events) : Claimed ⟨db', w.log ++ events⟩ := by
  have hclaims : ∀ id, claims (w.log ++ events) id = claims w.log id := by
    intro id
    rw [claims_append, claims_eq_nil (hevents id), List.append_nil]
  refine { ids := ?_, slot := ?_, attempts := ?_, owner := ?_, verified := ?_, known := ?_ }
  all_goals
    dsimp only
    rw [hjobs]
  · exact hw.ids
  · exact hw.slot
  · simpa only [hclaims] using hw.attempts
  · simpa only [hclaims] using hw.owner
  · exact hw.verified
  · intro id token hmem
    rcases List.mem_append.mp hmem with hold | hnew
    · exact hw.known id token hold
    · exact absurd hnew (hevents id token)

theorem Claimed.added (hw : Claimed w) {input : ManagedReplicationEnqueue} {now : Nat}
    (hnew : ∀ job ∈ w.db.jobs, job.id ≠ input.id)
    (hjobs : db'.jobs = w.db.jobs ++ [newJob input now]) :
    Claimed ⟨db', w.log ++ []⟩ := by
  have hnone : claims w.log input.id = [] := by
    apply claims_eq_nil
    intro token hmem
    obtain ⟨job, hjob, hid⟩ := hw.known input.id token hmem
    exact hnew job hjob hid
  rw [List.append_nil]
  refine { ids := ?_, slot := ?_, attempts := ?_, owner := ?_, verified := ?_, known := ?_ }
  all_goals
    dsimp only
    rw [hjobs]
  · rw [List.map_append, List.map_singleton, List.nodup_append]
    refine ⟨hw.ids, List.nodup_singleton _, ?_⟩
    intro id hid other hother heq
    obtain ⟨job, hjob, rfl⟩ := List.mem_map.mp hid
    exact hnew job hjob (heq.trans (List.mem_singleton.mp hother))
  · have hpending : (newJob input now).status.holdsSlot = false := rfl
    simpa [List.filter_append, hpending] using hw.slot
  · intro job hjob
    rcases List.mem_append.mp hjob with hold | hadded
    · exact hw.attempts job hold
    · obtain rfl := List.mem_singleton.mp hadded
      change 0 = (claims w.log input.id).length
      rw [hnone]
      rfl
  · intro job hjob hrunning
    rcases List.mem_append.mp hjob with hold | hadded
    · exact hw.owner job hold hrunning
    · obtain rfl := List.mem_singleton.mp hadded
      cases hrunning
  · intro job hjob hcompleted
    rcases List.mem_append.mp hjob with hold | hadded
    · exact hw.verified job hold hcompleted
    · obtain rfl := List.mem_singleton.mp hadded
      cases hcompleted
  · intro id token hmem
    obtain ⟨job, hjob, hid⟩ := hw.known id token hmem
    exact ⟨job, List.mem_append_left _ hjob, hid⟩

theorem Claimed.moved (hw : Claimed w) {cond : ManagedReplicationJob → Bool}
    {set : ManagedReplicationJob → ManagedReplicationJob}
    (hmoved : ∀ job ∈ w.db.jobs, cond job = true → Moved w.db job (set job))
    (hjobs : db'.jobs = Table.update w.db.jobs cond set) : Claimed ⟨db', w.log ++ []⟩ := by
  -- No move changes an id.
  have hid : ∀ job ∈ w.db.jobs, (if cond job then set job else job).id = job.id := by
    intro job hjob
    split
    · next hcond => rw [(hmoved job hjob hcond).same]
    · rfl
  have hids : (Table.update w.db.jobs cond set).map (fun job => job.id) =
      w.db.jobs.map fun job => job.id := by
    rw [Table.update, List.map_map]
    exact List.map_congr_left hid
  rw [List.append_nil]
  refine { ids := ?_, slot := ?_, attempts := ?_, owner := ?_, verified := ?_, known := ?_ }
  all_goals
    dsimp only
    rw [hjobs]
  · rw [hids]
    exact hw.ids
  · exact Nat.le_trans
      (Table.length_filter_update_le fun job hjob hcond => (hmoved job hjob hcond).slot) hw.slot
  · intro job hjob
    obtain ⟨old, hold, rfl⟩ := Table.mem_update.mp hjob
    rw [hid old hold, ← hw.attempts old hold]
    split
    · next hcond => exact (hmoved old hold hcond).attempts
    · rfl
  · intro job hjob hrunning
    obtain ⟨old, hold, rfl⟩ := Table.mem_update.mp hjob
    rw [hid old hold]
    -- A row that was moved is not running any more.
    split at hrunning
    · next hcond => exact absurd hrunning (hmoved old hold hcond).idle
    · next hcond =>
        rw [if_neg hcond]
        exact hw.owner old hold hrunning
  · intro job hjob hcompleted
    obtain ⟨old, hold, rfl⟩ := Table.mem_update.mp hjob
    split at hcompleted
    · next hcond =>
        rw [if_pos hcond]
        exact (hmoved old hold hcond).verified hcompleted
    · next hcond =>
        rw [if_neg hcond]
        exact hw.verified old hold hcompleted
  · intro id token hmem
    obtain ⟨old, hold, rfl⟩ := hw.known id token hmem
    exact ⟨_, Table.mem_update.mpr ⟨old, hold, rfl⟩, hid old hold⟩

theorem pendingJob_iff {id : String} {job : ManagedReplicationJob} :
    pendingJob id job = true ↔ job.id = id ∧ job.status = .pending := by
  simp [pendingJob]

theorem Claimed.claimed (hw : Claimed w) {id token : String} {now : Nat}
    (hfree : ∀ job ∈ w.db.jobs, job.status.holdsSlot = false)
    (hjobs : db'.jobs = Table.update w.db.jobs (pendingJob id) (claimRow token now)) :
    Claimed ⟨db', w.log ++ recorded (w.db.jobs.any (pendingJob id)) (.claimed id token)⟩ := by
  have hid : ∀ job : ManagedReplicationJob,
      (if pendingJob id job then claimRow token now job else job).id = job.id := by
    intro job
    split <;> rfl
  have hids :
      (Table.update w.db.jobs (pendingJob id) (claimRow token now)).map (fun job => job.id) =
      w.db.jobs.map fun job => job.id := Table.map_update fun _ => rfl
  -- The log of a claimed job grows by the token, every other one stays.
  have hclaims : ∀ job ∈ w.db.jobs,
      claims (w.log ++ recorded (w.db.jobs.any (pendingJob id)) (.claimed id token)) job.id =
      if pendingJob id job then claims w.log job.id ++ [token] else claims w.log job.id := by
    intro job hjob
    rw [claims_append]
    split
    · next hpending =>
        have hany : w.db.jobs.any (pendingJob id) = true :=
          List.any_eq_true.mpr ⟨job, hjob, hpending⟩
        rw [hany, (pendingJob_iff.mp hpending).1]
        simp [recorded, claims]
    · next hother =>
        by_cases hsame : job.id = id
        · have hnone : w.db.jobs.any (pendingJob id) = false := by
            rw [List.any_eq_false]
            intro row hrow hpending
            obtain ⟨hrowId, -⟩ := pendingJob_iff.mp hpending
            have := List.inj_on_of_nodup_map hw.ids hrow hjob (hrowId.trans hsame.symm)
            exact hother (this ▸ hpending)
          rw [hnone]
          simp [recorded, claims]
        · have hnone : ∀ other, Event.claimed job.id other ∉
              recorded (w.db.jobs.any (pendingJob id)) (.claimed id token) := by
            intro other
            unfold recorded
            split
            · simp [hsame]
            · simp
          rw [claims_eq_nil hnone, List.append_nil]
  refine { ids := ?_, slot := ?_, attempts := ?_, owner := ?_, verified := ?_, known := ?_ }
  all_goals
    dsimp only
    rw [hjobs]
  · rw [hids]
    exact hw.ids
  · exact Table.length_filter_update_key hw.ids (fun job _ hpending =>
      (pendingJob_iff.mp hpending).1) hfree
  · intro job hjob
    obtain ⟨old, hold, rfl⟩ := Table.mem_update.mp hjob
    rw [hid old, hclaims old hold]
    split
    · rw [List.length_append, ← hw.attempts old hold]
      rfl
    · exact hw.attempts old hold
  · intro job hjob hrunning
    obtain ⟨old, hold, rfl⟩ := Table.mem_update.mp hjob
    rw [hid old, hclaims old hold]
    split
    · rw [List.getLast?_append]
      rfl
    · next hother =>
        rw [if_neg hother] at hrunning
        exact hw.owner old hold hrunning
  · intro job hjob hcompleted
    obtain ⟨old, hold, rfl⟩ := Table.mem_update.mp hjob
    split at hcompleted
    · cases hcompleted
    · next hother =>
        rw [if_neg hother]
        exact hw.verified old hold hcompleted
  · intro other used hmem
    rcases List.mem_append.mp hmem with hbefore | hnew
    · obtain ⟨old, hold, rfl⟩ := hw.known other used hbefore
      exact ⟨_, Table.mem_update.mpr ⟨old, hold, rfl⟩, hid old⟩
    · unfold recorded at hnew
      split at hnew
      · next hany =>
          obtain ⟨old, hold, hpending⟩ := List.any_eq_true.mp hany
          cases List.mem_singleton.mp hnew
          exact ⟨_, Table.mem_update.mpr ⟨old, hold, rfl⟩,
            (hid old).trans (pendingJob_iff.mp hpending).1⟩
      · cases hnew

theorem Claimed.step (hw : Claimed w) (call : Call) : Claimed (w.step call) := by
  unfold World.step
  cases hrun : call.run w.db with
  | error failure => exact hw
  | ok result =>
      obtain ⟨db', events⟩ := result
      dsimp only
      cases run_change hw.ids hrun with
      | same hjobs hevents => exact hw.same hjobs hevents
      | added input now hnew hreserved hjobs hevents hdestinations =>
          subst hevents
          exact hw.added hnew hjobs
      | claimed id token now hfree hjobs hevents hdestinations =>
          subst hevents
          exact hw.claimed hfree hjobs
      | moved cond set hmoved hjobs hevents hdestinations =>
          subst hevents
          exact hw.moved hmoved hjobs

theorem after_concat (calls : List Call) (call : Call) :
    World.after (calls ++ [call]) = (World.after calls).step call := by
  unfold World.after
  rw [List.foldl_append]
  rfl

theorem claimed_after (calls : List Call) : Claimed (World.after calls) := by
  induction calls using List.reverseRecOn with
  | nil => exact claimed_start
  | append_singleton calls call ih =>
      rw [after_concat]
      exact ih.step call

/-! ## Settled jobs -/

/-- A job that is completed or uncertain keeps its whole row. -/
theorem settled_step (hw : Claimed w) {job : ManagedReplicationJob} (hjob : job ∈ w.db.jobs)
    (hsettled : job.status = .completed ∨ job.status = .uncertain) (call : Call) :
    job ∈ (w.step call).db.jobs := by
  have hkeep : ∀ (cond : ManagedReplicationJob → Bool) (set : ManagedReplicationJob →
      ManagedReplicationJob),
      cond job = false → job ∈ Table.update w.db.jobs cond set := by
    intro cond set hcond
    exact Table.mem_update.mpr ⟨job, hjob, by simp [hcond]⟩
  unfold World.step
  cases hrun : call.run w.db with
  | error failure => exact hjob
  | ok result =>
      obtain ⟨db', events⟩ := result
      dsimp only
      cases run_change hw.ids hrun with
      | same hjobs hevents => exact hjobs ▸ hjob
      | added input now hnew hreserved hjobs hevents hdestinations =>
          rw [hjobs]
          exact List.mem_append_left _ hjob
      | claimed id token now hfree hjobs hevents hdestinations =>
          rw [hjobs]
          apply hkeep
          rcases hsettled with h | h <;> simp [pendingJob, h]
      | moved cond set hmoved hjobs hevents hdestinations =>
          rw [hjobs]
          apply hkeep
          cases hcond : cond job with
          | false => rfl
          | true =>
              obtain ⟨hcompleted, huncertain⟩ := (hmoved job hjob hcond).unsettled
              rcases hsettled with h | h
              · exact absurd h hcompleted
              · exact absurd h huncertain

theorem settled_after {calls : List Call} {job : ManagedReplicationJob}
    (hjob : job ∈ (World.after calls).db.jobs)
    (hsettled : job.status = .completed ∨ job.status = .uncertain) (more : List Call) :
    job ∈ (World.after (calls ++ more)).db.jobs := by
  induction more using List.reverseRecOn with
  | nil => simpa using hjob
  | append_singleton more call ih =>
      rw [← List.append_assoc, after_concat]
      exact settled_step (claimed_after _) ih hsettled call

theorem finish_owned (hw : Claimed w) {id ownerToken : String} {result : Result} {now : Nat}
    {changed : Bool} (h : finish w.db id ownerToken result now = .ok (db', changed))
    {job : ManagedReplicationJob} (hjob : job ∈ w.db.jobs) (hchanged : job ∉ db'.jobs) :
    job.id = id ∧ job.status = .running ∧ (claims w.log id).getLast? = some ownerToken := by
  unfold finish at h
  simp only [bind_eq_ok, refuseIf_eq_ok, pure_eq_ok, Prod.mk.injEq] at h
  obtain ⟨_, -, _, -, rfl, -⟩ := h
  have hcond :
      (job.id == id && job.ownerToken == some ownerToken && job.status == .running) = true := by
    by_contra hnot
    apply hchanged
    refine Table.mem_update.mpr ⟨job, hjob, ?_⟩
    rw [if_neg hnot]
  simp only [Bool.and_eq_true, beq_iff_eq] at hcond
  obtain ⟨⟨rfl, howner⟩, hrunning⟩ := hcond
  exact ⟨rfl, hrunning, (hw.owner job hjob hrunning).symm.trans howner⟩

end

/-- The claim protocol, in every state that calls reach: one job holds the slot, only the
latest claim finishes a job, settled jobs stay as they are, and attempts count claims. -/
theorem claim_protocol (calls : List Call) :
    ((World.after calls).db.jobs.map fun job => job.id).Nodup ∧
    ((World.after calls).db.jobs.filter fun job => job.status.holdsSlot).length ≤ 1 ∧
    (∀ id ownerToken result now db' changed,
      finish (World.after calls).db id ownerToken result now = .ok (db', changed) →
        ∀ job ∈ (World.after calls).db.jobs, job ∉ db'.jobs →
          job.id = id ∧ job.status = .running ∧
          (claims (World.after calls).log id).getLast? = some ownerToken) ∧
    (∀ job ∈ (World.after calls).db.jobs, job.status = .completed →
      (∃ snapshot, job.destinationSnapshotId = some snapshot ∧ fullId snapshot = true ∧
        job.verifiedAt.isSome = true) ∧
        ∀ more, job ∈ (World.after (calls ++ more)).db.jobs) ∧
    (∀ job ∈ (World.after calls).db.jobs, job.status = .uncertain →
      ∀ more, job ∈ (World.after (calls ++ more)).db.jobs) ∧
    ∀ job ∈ (World.after calls).db.jobs,
      job.attempts = (claims (World.after calls).log job.id).length := by
  have hw := claimed_after calls
  refine ⟨hw.ids, hw.slot, ?_, ?_, ?_, hw.attempts⟩
  · intro id ownerToken result now db' changed hfinish job hjob hchanged
    exact finish_owned hw hfinish hjob hchanged
  · intro job hjob hcompleted
    exact ⟨hw.verified job hjob hcompleted, settled_after hjob (.inl hcompleted)⟩
  · intro job hjob huncertain
    exact settled_after hjob (.inr huncertain)

end Pluton.Replication
