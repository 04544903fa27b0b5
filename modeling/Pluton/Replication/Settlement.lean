-- SUMMARY: When every job that a tick of the replication worker claimed is settled.
import Pluton.Replication.Jobs
import Pluton.Replication.Service

/-!
# Settlement

A tick claims a job, announces it and only then enters the block whose `catch` settles
it. A job whose announcement throws stays as it was claimed; every other job is settled.
-/
namespace Pluton.Replication.Service

open EStateM Except ManagedReplicationStore

def claimedIds (log : List Act) : List String :=
  log.filterMap fun
    | .claimed id => some id
    | _ => none

/-- No job of that id is running. -/
def Idle (db : Tables) (id : String) : Prop := ∀ job ∈ db.jobs, job.id = id → job.status ≠ .running

instance (db : Tables) (id : String) : Decidable (Idle db id) :=
  inferInstanceAs (Decidable (∀ job ∈ db.jobs, job.id = id → job.status ≠ .running))

/-- No job that was claimed is running or in the map of active jobs. -/
def Settled (s : Tick) : Prop := ∀ id ∈ claimedIds s.log, Idle s.db id ∧ id ∉ s.active

def Act.announceThrew : Act → Bool
  | announced _ done => !done
  | _ => false

def Act.finishThrew : Act → Bool
  | settled _ done => !done
  | _ => false

/-- No projection between a claim and its `try` threw. -/
def Announced (s : Tick) : Prop := ∀ act ∈ s.log, act.announceThrew = false

/-- No `finish` of a `catch` threw. -/
def Finishing (s : Tick) : Prop := ∀ act ∈ s.log, act.finishThrew = false

variable {env : Env} {s s' : Tick} {id token : String} {α : Type} {job : ManagedReplicationJob}

/-! ## Calls that leave the jobs alone -/

structure Aside (s s' : Tick) : Prop where
  jobs : s'.db.jobs = s.db.jobs
  active : s'.active = s.active
  log : s'.log = s.log

instance : Std.Refl Aside where
  refl _ := ⟨rfl, rfl, rfl⟩

instance : IsTrans Tick Aside where
  trans _ _ _ h h' := ⟨h'.jobs.trans h.jobs, h'.active.trans h.active, h'.log.trans h.log⟩

theorem wp_ask {answer : Nat → Except Thrown α} {Q : α → Tick → Prop} {E : Thrown → Tick → Prop} :
    wp (ask answer) Q E s ↔
    wp (MonadExcept.ofExcept (answer s.calls)) Q E { s with calls := s.calls + 1 } := Iff.rfl

theorem ask_aside {answer : Nat → Except Thrown α} : Within Aside (ask answer) := by
  intro s
  rw [wp_ask, wp_ofExcept]
  exact ⟨fun _ _ => ⟨rfl, rfl, rfl⟩, fun _ _ => ⟨rfl, rfl, rfl⟩⟩

theorem get_aside : Within Aside (get : Exec Tick) := fun s => refl_of Aside s

theorem planOf_aside (backup : Option Backup) : Within Aside (planOf env backup) := by
  unfold planOf
  split
  · exact .pure
  · exact .bind ask_aside fun _ => .pure

theorem rowMirrors_aside (rows : List ManagedReplicationJob) :
    Within Aside (rowMirrors env rows) := by
  induction rows with
  | nil => exact .pure
  | cons row rows ih => exact .bind ask_aside fun _ => .bind ih fun _ => .pure

theorem project_aside (backupId : String) (admissionFailureCode : Option String) :
    Within Aside (project env backupId admissionFailureCode) := by
  unfold project
  refine .bind ask_aside fun _ => .bind get_aside fun _ => .bind ask_aside fun _ => ?_
  exact .bind (planOf_aside _) fun _ => .bind (rowMirrors_aside _) fun _ => ask_aside

theorem destinationStorage_aside (job : ManagedReplicationJob) :
    Within Aside (destinationStorage env job) := by
  unfold destinationStorage
  refine .bind ask_aside fun storage => ?_
  cases storage with
  | none => exact .throw
  | some storage => exact .bind ask_aside fun _ => .bind .refuseIf fun _ => .pure

theorem use_aside (fingerprint : String) (action : Use) :
    Within Aside (use fingerprint token action) := by
  intro s
  cases action with
  | beginInitialization => exact ⟨beginInitialization_jobs, rfl, rfl⟩
  | bindRepository repositoryId => exact ⟨finalizeInitialization_jobs, rfl, rfl⟩

theorem copy_aside (context : Context) (fingerprint : String) :
    Within Aside (copy env context fingerprint token) := by
  intro s
  have hrest : Within Aside (do
      (env.copy s.calls context).1.forM (use fingerprint token)
      MonadExcept.ofExcept (env.copy s.calls context).2) :=
    .bind (.forM (use_aside fingerprint) _) fun _ => .ofExcept
  exact (hrest { s with calls := s.calls + 1 }).mono (fun _ _ h => ⟨h.jobs, h.active, h.log⟩)
    fun _ _ h => ⟨h.jobs, h.active, h.log⟩

/-! ## Calls that change the jobs -/

theorem claim_none {db db' : Tables} {now : Nat}
    (h : ManagedReplicationStore.claim db id token now = .ok (db', none)) : db'.jobs = db.jobs := by
  unfold ManagedReplicationStore.claim at h
  simp only [bind_eq_ok, refuseIf_eq_ok] at h
  obtain ⟨_, -, h⟩ := h
  split at h
  · cases h
    rfl
  · simp only [pure_eq_ok, Prod.mk.injEq, Option.map_eq_none_iff, List.find?_eq_none] at h
    obtain ⟨rfl, hnone⟩ := h
    exact Table.update_eq_self fun row hrow => Bool.eq_false_iff.mpr (hnone row hrow)

theorem claim_some {db db' : Tables} {now : Nat}
    (h : ManagedReplicationStore.claim db id token now = .ok (db', some job)) :
    job.id = id ∧ (∀ row ∈ db.jobs, row.status.holdsSlot = false) ∧
      db'.jobs = Table.update db.jobs (pendingJob id) (claimRow token now) := by
  unfold ManagedReplicationStore.claim at h
  simp only [bind_eq_ok, refuseIf_eq_ok] at h
  obtain ⟨_, -, h⟩ := h
  split at h
  · cases h
  · next hfree =>
      simp only [pure_eq_ok, Prod.mk.injEq, Option.map_eq_some_iff] at h
      obtain ⟨rfl, old, hold, rfl⟩ := h
      simp only [List.any_eq_true, not_exists, not_and, Bool.not_eq_true] at hfree
      have hpending : pendingJob id old = true := List.find?_some hold
      exact ⟨(pendingJob_iff.mp hpending).1, hfree, rfl⟩

/-- The job was claimed with the token while no job was running. -/
structure Claims (id token : String) (s s' : Tick) : Prop where
  free : ∀ row ∈ s.db.jobs, row.status.holdsSlot = false
  jobs : ∃ now, s'.db.jobs = Table.update s.db.jobs (pendingJob id) (claimRow token now)
  active : s'.active = s.active
  log : s'.log = s.log ++ [.claimed id]

theorem claim_spec :
    wp (claim env id token)
      (fun claimed s' => match claimed with
        | none => Aside s s'
        | some job => job.id = id ∧ Claims id token s s')
      (fun _ => Aside s) s := by
  refine wp_bind.mpr (wp_ask.mpr
    (wp_bind.mpr (wp_ask.mpr (wp_ofExcept.mpr ⟨fun _ _ => ?_, fun _ _ => ⟨rfl, rfl, rfl⟩⟩))))
  refine wp_bind.mpr (wp_get.mpr ?_)
  split
  · exact ⟨rfl, rfl, rfl⟩
  · next db hclaim => exact ⟨claim_none hclaim, rfl, rfl⟩
  · next db job hclaim =>
      obtain ⟨rfl, hfree, hjobs⟩ := claim_some hclaim
      exact ⟨rfl, hfree, ⟨_, hjobs⟩, rfl, rfl⟩

/-- A `finish` that returns moves the running rows of its owner to another status. -/
theorem finish_spec {result : Result} :
    wp (finish env id token result)
      (fun _ s' => s'.active = s.active ∧ s'.log = s.log ∧ ∃ now,
        s'.db.jobs = Table.update s.db.jobs
        (fun job => job.id == id && job.ownerToken == some token && job.status == .running)
        (finishRow result now))
      (fun _ => Aside s) s := by
  refine wp_bind.mpr (wp_ask.mpr (wp_bind.mpr (wp_get.mpr ?_)))
  split
  · exact ⟨rfl, rfl, rfl⟩
  · next db changed hfinish =>
      unfold ManagedReplicationStore.finish at hfinish
      simp only [bind_eq_ok, refuseIf_eq_ok, pure_eq_ok, Prod.mk.injEq] at hfinish
      obtain ⟨_, -, _, -, rfl, -⟩ := hfinish
      exact ⟨rfl, rfl, _, rfl⟩

/-! ## One job -/

/-- Nothing threw so far that matters, and every claimed job but this one is settled. -/
structure Holds (id token : String) (s : Tick) : Prop where
  announced : Announced s
  finishing : Finishing s
  others : ∀ other ∈ claimedIds s.log, other ≠ id → Idle s.db other ∧ other ∉ s.active
  owner : ∀ row ∈ s.db.jobs, row.id = id → row.status = .running → row.ownerToken = some token

/-- What the head of the loop keeps. -/
structure Head (s : Tick) : Prop where
  announced : Announced s
  finishing : Finishing s
  settled : Settled s

theorem idle_of_jobs {db db' : Tables} (hjobs : db'.jobs = db.jobs) (h : Idle db id) :
    Idle db' id := by
  unfold Idle
  rw [hjobs]
  exact h

theorem Holds.aside (h : Holds id token s) (haside : Aside s s') : Holds id token s' where
  announced := by
    unfold Announced
    rw [haside.log]
    exact h.announced
  finishing := by
    unfold Finishing
    rw [haside.log]
    exact h.finishing
  others other hother hne := by
    rw [haside.log] at hother
    rw [haside.active]
    obtain ⟨hidle, hactive⟩ := h.others other hother hne
    exact ⟨idle_of_jobs haside.jobs hidle, hactive⟩
  owner := by
    rw [haside.jobs]
    exact h.owner

theorem Head.aside (h : Head s) (haside : Aside s s') : Head s' where
  announced := by
    unfold Announced
    rw [haside.log]
    exact h.announced
  finishing := by
    unfold Finishing
    rw [haside.log]
    exact h.finishing
  settled other hother := by
    rw [haside.log] at hother
    rw [haside.active]
    obtain ⟨hidle, hactive⟩ := h.settled other hother
    exact ⟨idle_of_jobs haside.jobs hidle, hactive⟩

theorem claimedIds_append {log log' : List Act} :
    claimedIds (log ++ log') = claimedIds log ++ claimedIds log' :=
  List.filterMap_append

theorem Head.claimed (h : Head s) (hclaim : Claims id token s s') : Holds id token s' where
  announced := by
    unfold Announced
    rw [hclaim.log, List.forall_mem_append]
    exact ⟨h.announced, by simp [Act.announceThrew]⟩
  finishing := by
    unfold Finishing
    rw [hclaim.log, List.forall_mem_append]
    exact ⟨h.finishing, by simp [Act.finishThrew]⟩
  others other hother hne := by
    rw [hclaim.log, claimedIds_append, List.mem_append] at hother
    rcases hother with hold | hnew
    · obtain ⟨hidle, hactive⟩ := h.settled other hold
      refine ⟨fun job hjob hsame => ?_, hclaim.active ▸ hactive⟩
      obtain ⟨now, hjobs⟩ := hclaim.jobs
      rw [hjobs] at hjob
      obtain ⟨old, hmem, rfl⟩ := Table.mem_update.mp hjob
      split at hsame
      · next hpending => exact absurd (hsame.symm.trans (pendingJob_iff.mp hpending).1) hne
      · next hkept =>
          rw [if_neg hkept]
          exact hidle old hmem hsame
    · exact absurd (List.mem_singleton.mp hnew) hne
  owner row hrow hsame hrunning := by
    obtain ⟨now, hjobs⟩ := hclaim.jobs
    rw [hjobs] at hrow
    obtain ⟨old, hmem, rfl⟩ := Table.mem_update.mp hrow
    split at hrunning
    · next hpending =>
        rw [if_pos hpending]
        rfl
    · have hfree := hclaim.free old hmem
      rw [hrunning] at hfree
      cases hfree

theorem Holds.activate (h : Holds id token s) : Holds id token ((activate id).after s) where
  announced := h.announced
  finishing := h.finishing
  owner := h.owner
  others other hother hne := by
    obtain ⟨hidle, hactive⟩ := h.others other hother hne
    refine ⟨hidle, ?_⟩
    change other ∉ (if s.active.contains id then s.active else s.active ++ [id])
    split
    · exact hactive
    · simp [hactive, hne]

/-- Once the job is idle and out of the map, the loop goes on. -/
theorem Holds.deactivate (h : Holds id token s) (hidle : Idle s.db id) :
    Head ((deactivate id).after s) where
  announced := h.announced
  finishing := h.finishing
  settled other hother := by
    change Idle s.db other ∧ other ∉ s.active.filter fun held => held != id
    by_cases hsame : other = id
    · subst hsame
      exact ⟨hidle, by simp⟩
    · obtain ⟨hother, hactive⟩ := h.others other hother hsame
      exact ⟨hother, fun hmem => hactive (List.mem_filter.mp hmem).1⟩

theorem status_ne_running {outcome : Outcome} : outcome.status ≠ .running := by
  cases outcome <;> exact fun h => by cases h

/-- After its own `finish` the job is idle. -/
theorem Holds.finished (h : Holds id token s) {result : Result} {now : Nat}
    (hactive : s'.active = s.active) (hlog : s'.log = s.log)
    (hjobs : s'.db.jobs = Table.update s.db.jobs
      (fun job => job.id == id && job.ownerToken == some token && job.status == .running)
      (finishRow result now)) :
    Holds id token s' ∧ Idle s'.db id := by
  have hidle : ∀ other, (other ≠ id → Idle s.db other) → Idle s'.db other := by
    intro other hbefore job hjob hsame hrunning
    rw [hjobs] at hjob
    obtain ⟨old, hold, rfl⟩ := Table.mem_update.mp hjob
    split at hrunning
    · exact status_ne_running hrunning
    · next hkept =>
        rw [if_neg hkept] at hsame
        by_cases hid : other = id
        · apply hkept
          simp [hsame, hid, h.owner old hold (hsame.trans hid) hrunning, hrunning]
        · exact hbefore hid old hold hsame hrunning
  refine ⟨{ announced := ?_, finishing := ?_, others := ?_, owner := ?_ },
    hidle id fun hne => absurd rfl hne⟩
  · unfold Announced
    rw [hlog]
    exact h.announced
  · unfold Finishing
    rw [hlog]
    exact h.finishing
  · intro other hother hne
    rw [hlog] at hother
    rw [hactive]
    obtain ⟨hbefore, hout⟩ := h.others other hother hne
    exact ⟨hidle other fun _ => hbefore, hout⟩
  · intro row hrow hsame hrunning
    exact absurd hrunning (hidle id (fun hne => absurd rfl hne) row hrow hsame)

theorem Holds.bind {α β : Type} {x : Exec α} {f : α → Exec β} {Q : β → Tick → Prop}
    (h : Holds id token s) (hx : Within Aside x)
    (hf : ∀ a s', Holds id token s' → wp (f a) Q (fun _ => Holds id token) s') :
    wp (x >>= f) Q (fun _ => Holds id token) s :=
  EStateM.wp.bind ((hx s).mono (fun _ _ haside => h.aside haside) fun _ _ haside =>
    h.aside haside) hf

theorem execute_spec (h : Holds job.id token s) :
    wp (execute env job token) (fun _ s' => Holds job.id token s' ∧ Idle s'.db job.id)
      (fun _ => Holds job.id token) s := by
  unfold execute
  refine h.bind ask_aside fun context s₁ h₁ => ?_
  refine h₁.bind .refuseIf fun _ s₂ h₂ => ?_
  refine h₂.bind .refuseIf fun _ s₃ h₃ => ?_
  refine h₃.bind (destinationStorage_aside job) fun storage s₄ h₄ => ?_
  refine h₄.bind get_aside fun tick s₅ h₅ => ?_
  refine h₅.bind .refuseIf fun _ s₆ h₆ => ?_
  refine h₆.bind ask_aside fun proof s₇ h₇ => ?_
  refine h₇.bind .refuseIf fun _ s₈ h₈ => ?_
  refine h₈.bind ask_aside fun _ s₉ h₉ => ?_
  refine h₉.bind (copy_aside _ _) fun snapshotId s₁₀ h₁₀ => ?_
  refine finish_spec.mono ?_ fun _ _ haside => h₁₀.aside haside
  rintro _ s' ⟨hactive, hlog, now, hjobs⟩
  exact h₁₀.finished hactive hlog hjobs

/-- A note that nothing threw changes nothing. -/
theorem Holds.note (h : Holds id token s) {act : Act} (hclaimed : ∀ other, act ≠ .claimed other)
    (hannounce : act.announceThrew = false) (hfinish : act.finishThrew = false) :
    Holds id token { s with log := s.log ++ [act] } where
  announced := by
    unfold Announced
    rw [List.forall_mem_append, List.forall_mem_singleton]
    exact ⟨h.announced, hannounce⟩
  finishing := by
    unfold Finishing
    rw [List.forall_mem_append, List.forall_mem_singleton]
    exact ⟨h.finishing, hfinish⟩
  others other hother hne := by
    have hnone : claimedIds [act] = [] := by
      cases act with
      | claimed other => exact absurd rfl (hclaimed other)
      | announced other done => rfl
      | settled other done => rfl
    rw [claimedIds_append, hnone, List.append_nil] at hother
    exact h.others other hother hne
  owner := h.owner

theorem not_finishing_of_mem {act : Act} (hact : act ∈ s.log) (hthrew : act.finishThrew = true) :
    ¬Finishing s := by
  intro h
  rw [h act hact] at hthrew
  cases hthrew

theorem settle_spec {outcome : Except Thrown Unit} (h : Holds job.id token s)
    (hidle : outcome = .ok () → Idle s.db job.id) :
    wp (settle env job token outcome) (fun _ s' => Holds job.id token s' ∧ Idle s'.db job.id)
      (fun _ s' => ¬Finishing s') s := by
  cases outcome with
  | ok _ => exact ⟨h, hidle rfl⟩
  | error failure =>
      refine wp_bind.mpr (wp_ask.mpr (wp_bind.mpr (wp_get.mpr (wp_bind.mpr (wp_ask.mpr ?_)))))
      refine wp_bind.mpr (wp_observe.mpr (finish_spec.mono ?_ ?_))
      · rintro _ s' ⟨hactive, hlog, now, hjobs⟩
        obtain ⟨hholds, hdone⟩ := h.finished hactive hlog hjobs
        exact ⟨hholds.note (fun _ h => by cases h) rfl rfl, hdone⟩
      · intro failure' s' _
        exact not_finishing_of_mem (List.mem_append_right _ (List.mem_singleton_self _)) rfl

/-- What is true of a tick in the end: unless a `finish` threw, its jobs are settled
just when no announcement threw. -/
def Final (s : Tick) : Prop := Finishing s → (Settled s ↔ Announced s)

theorem Head.final (h : Head s) : Final s := fun _ => ⟨fun _ => h.announced, fun _ => h.settled⟩

theorem announce_spec (h : Holds job.id token s) (hclaimed : job.id ∈ claimedIds s.log)
    (hactive : job.id ∈ s.active) :
    wp (announce env job) (fun _ => Holds job.id token) (fun _ => Final) s := by
  refine wp_bind.mpr (wp_observe.mpr ((project_aside _ _ s).mono ?_ ?_))
  · intro _ s' haside
    exact (h.aside haside).note (fun _ h => by cases h) rfl rfl
  · intro failure s' haside _
    have hunsettled : ¬Settled { s' with log := s'.log ++ [.announced job.id false] } := by
      intro hsettled
      refine (hsettled job.id ?_).2 (haside.active ▸ hactive)
      rw [claimedIds_append, haside.log]
      exact List.mem_append_left _ hclaimed
    refine ⟨fun hsettled => absurd hsettled hunsettled, fun hannounced => ?_⟩
    have hthrew :=
      hannounced (.announced job.id false) (List.mem_append_right _ (List.mem_singleton_self _))
    cases hthrew

theorem perform_spec (h : Head s) (hclaim : Claims job.id token s s') :
    wp (perform env job token) (fun _ => Head) (fun _ => Final) s' := by
  have hclaimed : job.id ∈ claimedIds s'.log := by
    rw [hclaim.log, claimedIds_append]
    exact List.mem_append_right _ (List.mem_singleton_self _)
  have hactive : job.id ∈ ((activate job.id).after s').active := by
    change job.id ∈ (if s'.active.contains job.id then s'.active else s'.active ++ [job.id])
    split
    · next hmem => exact List.contains_iff_mem.mp hmem
    · exact List.mem_append_right _ (List.mem_singleton_self _)
  have hactivated : Holds job.id token ((activate job.id).after s') := (h.claimed hclaim).activate
  refine wp_bind.mpr (EStateM.wp.bind (announce_spec hactivated hclaimed hactive) fun _ s₁ h₁ => ?_)
  have hexecuted : wp (observe (execute env job token)) (fun outcome s₂ =>
      Holds job.id token s₂ ∧ (outcome = .ok () → Idle s₂.db job.id)) (fun _ => Final) s₁ :=
    wp_observe.mpr ((execute_spec h₁).mono (fun _ _ h => ⟨h.1, fun _ => h.2⟩) fun _ _ h =>
      ⟨h, fun h => by cases h⟩)
  refine EStateM.wp.bind hexecuted fun outcome s₂ ⟨h₂, hidle⟩ => ?_
  refine wp_bind.mpr (wp_observe.mpr ((settle_spec h₂ hidle).mono ?_ ?_))
  · rintro _ s₃ ⟨h₃, hdone⟩
    have hhead : Head ((deactivate job.id).after s₃) := h₃.deactivate hdone
    refine wp_bind.mpr (wp_bind.mpr ((project_aside _ _ _).mono ?_ ?_))
    · exact fun _ s₄ haside => hhead.aside haside
    · exact fun _ s₄ haside => (hhead.aside haside).final
  · intro failure s₃ hthrew
    have hfinal : ∀ s₄, Aside ((deactivate job.id).after s₃) s₄ → Final s₄ := by
      intro s₄ haside hfinishing
      unfold Finishing at hfinishing
      rw [haside.log] at hfinishing
      exact absurd hfinishing hthrew
    exact wp_bind.mpr (wp_bind.mpr ((project_aside _ _ _).mono (fun _ => hfinal) fun _ => hfinal))

/-! ## The tick -/

theorem visit_spec (rows : List ManagedReplicationJob) (h : Head s) :
    wp (visit env rows) (fun _ => Head) (fun _ => Final) s := by
  induction rows generalizing s with
  | nil => exact h
  | cons pending rows ih =>
      have haside : ∀ s', Aside s s' → Head s' := fun s' => h.aside
      refine EStateM.wp.bind ((ask_aside s).mono (fun _ => haside) fun _ s' h' =>
        (haside s' h').final) ?_
      intro stopping s₁ h₁
      refine wp_ite.mpr ⟨fun _ => h₁, fun _ => ?_⟩
      refine wp_bind.mpr ((ask_aside s₁).mono (fun token s₂ h₂ => ?_) fun _ s₂ h₂ =>
        (h₁.aside h₂).final)
      have hhead := h₁.aside h₂
      refine EStateM.wp.bind (claim_spec.mono (fun _ _ h => h) fun _ s₃ h₃ =>
        (hhead.aside h₃).final) ?_
      intro claimed s₃ hclaimed
      cases claimed with
      | none => exact ih (hhead.aside hclaimed)
      | some job =>
          obtain ⟨hid, hclaim⟩ := hclaimed
          rw [← hid] at hclaim
          exact EStateM.wp.bind (perform_spec hhead hclaim) fun _ s₄ h₄ => ih h₄

theorem runTick_final (env : Env) (db : Tables) (active : List String) :
    Final ((runTick env).after { db := db, active := active, calls := 0, log := [] }) := by
  apply wp_iff_after.mp
  have hstart : Head { db := db, active := active, calls := 0, log := [] } :=
    { announced := by simp [Announced], finishing := by simp [Finishing],
      settled := by simp [Settled, claimedIds] }
  have haside : ∀ s', Aside { db := db, active := active, calls := 0, log := [] } s' → Head s' :=
    fun s' => hstart.aside
  refine EStateM.wp.bind ((ask_aside _).mono (fun _ => haside) fun _ s' h =>
    (haside s' h).final) fun _ s₁ h₁ => ?_
  exact wp_bind.mpr (wp_get.mpr ((visit_spec _ h₁).mono (fun _ _ h => h.final) fun _ _ h => h))

/-- When a tick ends, returned or thrown, and no `finish` of a `catch` threw: the jobs it
claimed are settled if and only if no projection between a claim and its `try` threw. -/
theorem runTick_settles (env : Env) (db : Tables) (active : List String)
    (hfinish : Finishing ((runTick env).after
      { db := db, active := active, calls := 0, log := [] })) :
    Settled ((runTick env).after { db := db, active := active, calls := 0, log := [] }) ↔
      Announced ((runTick env).after { db := db, active := active, calls := 0, log := [] }) :=
  runTick_final env db active hfinish

/-! ## One pending job -/

namespace Sample

def pending : ManagedReplicationJob where
  id := "managed-replication-1"
  binding :=
    { backupId := "b", planId := "p", repositoryId := "r", agentId := "a", sourceStorageId := "s",
      sourceStoragePath := "repo", sourceSnapshotId := "snapshot",
      sourceRepositoryConfigId := "config",
      sourceTreeId := "tree", sourceBindingHash := "hash", replicationId := "copy",
      destinationStorageId := "d",
      destinationStoragePath := "replica", destinationFingerprint := "fingerprint" }
  createdAt := 1
  updatedAt := 1

def tables : Tables := { jobs := [pending], destinations := [] }

/-- The source of the job is not available; the update of the backup throws as given. -/
def collaborators (updateBackup : Nat → Except Thrown Unit) : Env where
  stopping _ := false
  token _ := "0123456789abcdef0123456789abcdef0123456789abcdef"
  now n := n
  aborted _ := none
  listRunnable _ := .ok ()
  listByBackup _ := .ok ()
  claim _ := .ok ()
  getBackup _ _ := .ok none
  getPlan _ _ := .ok none
  getStorage _ _ := .ok none
  updateBackup n _ _ := updateBackup n
  source _ _ := .error (.replication "backup-not-completed")
  identity _ _ _ := .error .other
  access _ _ := .error .other
  inspectSource _ _ := .error .other
  copy _ _ := ([], .error .other)

/-- A tick over the one pending job. -/
def tick (updateBackup : Nat → Except Thrown Unit) : Tick :=
  (runTick (collaborators updateBackup)).after { db := tables, active := [], calls := 0, log := [] }

instance (s : Tick) : Decidable (Settled s) :=
  inferInstanceAs (Decidable (∀ id ∈ claimedIds s.log, Idle s.db id ∧ id ∉ s.active))

instance (s : Tick) : Decidable (Finishing s) :=
  inferInstanceAs (Decidable (∀ act ∈ s.log, act.finishThrew = false))

instance (s : Tick) : Decidable (Announced s) :=
  inferInstanceAs (Decidable (∀ act ∈ s.log, act.announceThrew = false))

/-- The job fails and is settled. -/
theorem settles_failed :
    Finishing (tick fun _ => .ok ()) ∧ (Settled (tick fun _ => .ok ()) ↔
      Announced (tick fun _ => .ok ())) := by
  have hfinish : Finishing (tick fun _ => .ok ()) := by decide +kernel
  exact ⟨hfinish, runTick_settles (collaborators fun _ => .ok ()) tables [] hfinish⟩

/-- When the first update of the backup throws, the job stays running and active. -/
theorem announcement_strands :
    Finishing (tick fun _ => .error .other) ∧
    claimedIds (tick fun _ => .error .other).log = [pending.id] ∧
    (tick fun _ => .error .other).active = [pending.id] ∧
    (tick fun _ => .error .other).db.jobs.map (fun job => (job.id, job.status)) =
      [(pending.id, .running)] ∧
    ¬Settled (tick fun _ => .error .other) := by
  decide +kernel

end Sample

end Pluton.Replication.Service
