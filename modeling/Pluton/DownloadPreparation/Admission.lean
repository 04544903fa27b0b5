-- SUMMARY: One run, four admitted jobs, 32 retained ones, and one live job for a key.
import Pluton.DownloadPreparation.Worker
import Pluton.Ends
import Pluton.Table

/-!
# What the preparation service keeps

`Later` says what a job may become in any step; the bounds on the jobs follow from it row by
row. A new job is the only one that is added, and `start` makes room for it first.
-/
namespace Pluton.DownloadPreparation

open EStateM Tar

/-! ## One job -/

/-- Withdrawing a job aborts it, and only a job that is ready holds a proof. -/
structure Job.Sound (job : Job) : Prop where
  aborted : job.aborted = job.state.withdrawn
  proof : job.proof.isSome → job.state = .ready

/-- What a step may do to a job. -/
structure Job.Later (job job' : Job) : Prop where
  key : job'.key = job.key
  retained : job'.retained = true → job.retained = true
  pending : job'.state.pending = true → job.state.pending = true
  live : job'.state.live = true → job.state.live = true
  queued : job'.state = .queued → job.state = .queued
  withdrawn : job.state.withdrawn = true → job'.state.withdrawn = true
  sound : job.Sound → job'.Sound

/-- The run of the job may still report: it was withdrawn, or it is pending. -/
def Job.Runs (job : Job) : Prop := job.aborted = true ∨ job.state.pending = true

/-- What a step may do to a job whose run goes on. -/
structure Job.GoesOn (job job' : Job) : Prop extends Later job job' where
  runs : job.Runs → job'.Runs

namespace Job

variable {job job' job'' : Job} {now : Nat}

theorem Later.trans (h : Later job job') (h' : Later job' job'') : Later job job'' where
  key := h'.key.trans h.key
  retained := fun hjob => h.retained (h'.retained hjob)
  pending := fun hjob => h.pending (h'.pending hjob)
  live := fun hjob => h.live (h'.live hjob)
  queued := fun hjob => h.queued (h'.queued hjob)
  withdrawn := fun hjob => h'.withdrawn (h.withdrawn hjob)
  sound := fun hjob => h'.sound (h.sound hjob)

instance : Std.Refl Later := ⟨fun _ => ⟨rfl, id, id, id, id, id, id⟩⟩

instance : Std.Refl GoesOn := ⟨fun job => ⟨refl_of Later job, id⟩⟩

theorem GoesOn.trans (h : GoesOn job job') (h' : GoesOn job' job'') : GoesOn job job'' :=
  ⟨h.toLater.trans h'.toLater, fun hjob => h'.runs (h.runs hjob)⟩

theorem GoesOn.ite {c : Prop} [Decidable c] (h : GoesOn job job') :
    GoesOn job (if c then job' else job) := by
  split
  · exact h
  · exact refl_of GoesOn job

theorem goesOn_expire : GoesOn job (job.expire now) where
  key := rfl
  retained := id
  pending := nofun
  live := nofun
  queued := nofun
  withdrawn _ := rfl
  sound _ := ⟨rfl, nofun⟩
  runs _ := .inl rfl

theorem goesOn_cancel : GoesOn job (job.cancel now) := by
  unfold cancel
  split
  · exact ⟨⟨rfl, id, nofun, nofun, nofun, fun _ => rfl, fun _ => ⟨rfl, nofun⟩⟩, fun _ => .inl rfl⟩
  · exact refl_of GoesOn job

theorem goesOn_drop : GoesOn job { job with retained := false } where
  key := rfl
  retained := nofun
  pending := id
  live := id
  queued := id
  withdrawn := id
  sound h := ⟨h.aborted, h.proof⟩
  runs := id

theorem goesOn_sweep {active : Bool} {clock : Nat → Nat} : GoesOn job (job.sweep active clock) :=
  (GoesOn.ite goesOn_expire).trans ((GoesOn.ite goesOn_expire).trans (GoesOn.ite goesOn_drop))

theorem not_withdrawn_of_pending {state : PreparationState} (h : state.pending = true) :
    state.withdrawn = false := by
  cases state <;> first | rfl | cases h

theorem goesOn_stage {state : PreparationState} (hruns : job.Runs) (hpending : state.pending = true)
    (hqueued : state ≠ .queued) : GoesOn job (job.stage state) := by
  unfold stage
  split
  · exact refl_of GoesOn job
  · next hopen =>
    have hold : job.state.pending = true := hruns.resolve_left hopen
    have hlive : job.state.live = true := by rw [PreparationState.live, hold]; rfl
    refine ⟨⟨rfl, id, fun _ => hold, fun _ => hlive, fun h => absurd h hqueued, fun h => ?_,
      fun h => ?_⟩, fun _ => .inr hpending⟩
    · rw [not_withdrawn_of_pending hold] at h
      cases h
    · refine ⟨(eq_false_of_ne_true hopen).trans (not_withdrawn_of_pending hpending).symm,
        fun hproof => ?_⟩
      have hready := h.proof hproof
      rw [hready] at hold
      cases hold

/-- The run of a job that was withdrawn settles late: the job stays withdrawn. -/
theorem later_conclude {result : Except Thrown (String × Option ManagedExportSummary)}
    (hruns : job.Runs) :
    Later job (job.conclude result now) := by
  unfold conclude
  split
  · exact ⟨rfl, id, id, id, id, id, fun h => ⟨h.aborted, h.proof⟩⟩
  · next hopen =>
    have hold : job.state.pending = true := hruns.resolve_left hopen
    have hlive : job.state.live = true := by rw [PreparationState.live, hold]; rfl
    have hstays : ∀ {P : Prop}, job.state.withdrawn = true → P := fun h => by
      rw [not_withdrawn_of_pending hold] at h
      cases h
    cases result with
    | ok value =>
        exact ⟨rfl, id, nofun, fun _ => hlive, nofun, hstays,
          fun _ => ⟨eq_false_of_ne_true hopen, fun _ => rfl⟩⟩
    | error thrown =>
        refine ⟨rfl, id, nofun, nofun, nofun, hstays,
          fun h => ⟨eq_false_of_ne_true hopen, fun hproof => ?_⟩⟩
        have hready := h.proof hproof
        rw [hready] at hold
        cases hold

end Job

/-! ## The service -/

namespace Service

variable {s s' : Service} {k : Nat} {job : Job} {key : String} {exportMode : ManagedExportMode}

theorem find_some {cond : Nat → Job → Bool} (h : s.find cond = some (job, k)) :
    s.jobs[k]? = some job ∧ job.retained = true ∧ cond k job = true := by
  have hmem := List.mem_zipIdx_iff_getElem?.mp (List.mem_of_find?_eq_some h)
  have hcond := List.find?_some h
  exact ⟨hmem, Bool.and_eq_true_iff.mp hcond⟩

theorem find_none {cond : Nat → Job → Bool} (h : s.find cond = none) (hjob : s.jobs[k]? = some job)
    (hretained : job.retained = true) : cond k job = false := by
  have hcond := List.find?_eq_none.mp h (job, k) (List.mem_zipIdx_iff_getElem?.mpr hjob)
  rw [hretained, Bool.true_and, Bool.not_eq_true] at hcond
  exact hcond

/-- The jobs in the map that wait for the worker or have it. -/
def pendingCount (s : Service) : Nat := (s.retained.filter (·.state.pending)).length

/-- No job in the map is live under the key. -/
def Free (s : Service) (key : String) : Prop :=
  ∀ job ∈ s.jobs, job.retained = true → job.state.live = true → job.key ≠ key

/-- All that holds of the service, apart from the progress of its queue. -/
structure Core (s : Service) : Prop where
  runs : s.runs = s.active.toList
  running : ∀ k ∈ s.runs, ∃ job, s.jobs[k]? = some job ∧ job.Runs
  sound : ∀ job ∈ s.jobs, job.Sound
  pending : s.pendingCount ≤ 4
  retained : s.retained.length ≤ 32
  keys : ∀ (i j : Nat) (a b : Job), s.jobs[i]? = some a → s.jobs[j]? = some b →
    a.retained = true → b.retained = true →
    a.state.live = true → b.state.live = true → a.key = b.key → i = j

/-- A queued job will be run: a run is in progress, or a pump is scheduled. -/
def Progress (s : Service) : Prop :=
  s.closed = false → ∀ job ∈ s.jobs, job.retained = true → job.state = .queued →
    s.runs ≠ [] ∨ 0 < s.immediates

structure Inv (s : Service) : Prop extends Core s where
  progress : s.Progress

/-- A job that was withdrawn is there, and withdrawn. -/
def Keeps (s s' : Service) : Prop :=
  ∀ (k : Nat) (job : Job), s.jobs[k]? = some job → job.state.withdrawn = true →
    ∃ job', s'.jobs[k]? = some job' ∧ job'.state.withdrawn = true

instance : Std.Refl Keeps := ⟨fun _ _ job hjob hstate => ⟨job, hjob, hstate⟩⟩

theorem Keeps.trans {s'' : Service} (h : Keeps s s') (h' : Keeps s' s'') : Keeps s s'' := by
  intro k job hjob hstate
  obtain ⟨job', hjob', hstate'⟩ := h k job hjob hstate
  exact h' k job' hjob' hstate'

/-! ## Jobs that go on -/

theorem keeps_of_later (h : List.Forall₂ Job.Later s.jobs s'.jobs) : Keeps s s' := by
  intro k job hjob hstate
  obtain ⟨job', hjob', hlater⟩ := Table.getElem?_of_forall₂ h hjob
  exact ⟨job', hjob', hlater.withdrawn hstate⟩

theorem pendingCount_le (h : List.Forall₂ Job.Later s.jobs s'.jobs) :
    s'.pendingCount ≤ s.pendingCount := by
  unfold pendingCount retained
  rw [List.filter_filter, List.filter_filter]
  refine Table.length_filter_le_of_forall₂ (fun job job' hlater hjob => ?_) h
  rw [Bool.and_eq_true] at hjob ⊢
  exact ⟨hlater.pending hjob.1, hlater.retained hjob.2⟩

theorem retained_le (h : List.Forall₂ Job.Later s.jobs s'.jobs) :
    s'.retained.length ≤ s.retained.length :=
  Table.length_filter_le_of_forall₂ (fun _ _ hlater hjob => hlater.retained hjob) h

theorem Free.later (hfree : s.Free key) (h : List.Forall₂ Job.Later s.jobs s'.jobs) :
    s'.Free key := by
  intro job' hjob' hretained hlive
  obtain ⟨job, hjob, hlater⟩ := Except.forall₂_mem_right h hjob'
  rw [hlater.key]
  exact hfree job hjob (hlater.retained hretained) (hlater.live hlive)

/-- The service after its jobs have gone on, each in its way. -/
theorem Core.later (h : Core s) (hjobs : List.Forall₂ Job.Later s.jobs s'.jobs)
    (hruns : s'.runs = s'.active.toList)
    (hrunning : ∀ k ∈ s'.runs, ∃ job, s'.jobs[k]? = some job ∧ job.Runs) : Core s' where
  runs := hruns
  running := hrunning
  sound job' hjob' := by
    obtain ⟨job, hjob, hlater⟩ := Except.forall₂_mem_right hjobs hjob'
    exact hlater.sound (h.sound job hjob)
  pending := Nat.le_trans (pendingCount_le hjobs) h.pending
  retained := Nat.le_trans (retained_le hjobs) h.retained
  keys i j a b ha hb hra hrb hla hlb hkey := by
    obtain ⟨a₀, ha₀, hlater⟩ := Table.getElem?_of_forall₂ hjobs.flip ha
    obtain ⟨b₀, hb₀, hlater'⟩ := Table.getElem?_of_forall₂ hjobs.flip hb
    exact h.keys i j a₀ b₀ ha₀ hb₀ (hlater.retained hra) (hlater'.retained hrb)
      (hlater.live hla) (hlater'.live hlb)
      (hlater.key.symm.trans (hkey.trans hlater'.key))

theorem Progress.later (h : s.Progress) (hjobs : List.Forall₂ Job.Later s.jobs s'.jobs)
    (hclosed : s'.closed = s.closed) (hruns : s'.runs = s.runs)
    (himmediates : s'.immediates = s.immediates) : s'.Progress := by
  intro hopen job' hjob' hretained hqueued
  obtain ⟨job, hjob, hlater⟩ := Except.forall₂_mem_right hjobs hjob'
  rw [hruns, himmediates]
  exact h (hclosed ▸ hopen) job hjob (hlater.retained hretained) (hlater.queued hqueued)

/-- What a step does: it keeps the invariant, and what was withdrawn. -/
structure Good (s s' : Service) : Prop where
  inv : Inv s'
  keeps : Keeps s s'

theorem Good.trans {s'' : Service} (h : Good s s') (h' : Good s' s'') : Good s s'' :=
  ⟨h'.inv, h.keeps.trans h'.keeps⟩

theorem Inv.good (h : Inv s) : Good s s := ⟨h, refl_of Keeps s⟩

/-- A step that changes the jobs only, none of them by the end of its run. -/
theorem Inv.goOn (h : Inv s) {jobs : List Job} (hjobs : List.Forall₂ Job.GoesOn s.jobs jobs) :
    Good s { s with jobs } := by
  have hlater : List.Forall₂ Job.Later s.jobs jobs := hjobs.imp fun _ _ hjob => hjob.toLater
  have hcore : Core { s with jobs } := h.toCore.later hlater h.runs fun k hk => by
    obtain ⟨job, hjob, hruns⟩ := h.running k hk
    obtain ⟨job', hjob', hgoesOn⟩ := Table.getElem?_of_forall₂ hjobs hjob
    exact ⟨job', hjob', hgoesOn.runs hruns⟩
  exact ⟨{ hcore with progress := h.progress.later hlater rfl rfl rfl }, keeps_of_later hlater⟩

theorem forall₂_mapIdx {f : Nat → Job → Job}
    (h : ∀ k job, s.jobs[k]? = some job → Job.GoesOn job (f k job)) :
    List.Forall₂ Job.GoesOn s.jobs (s.jobs.mapIdx f) := by
  refine Table.forall₂_of_getElem? (List.length_mapIdx ..) fun k job job' hjob hjob' => ?_
  rw [List.getElem?_mapIdx, hjob] at hjob'
  cases hjob'
  exact h k job hjob

theorem Inv.amend (h : Inv s) {f : Job → Job}
    (hjob : ∀ job, s.jobs[k]? = some job → Job.GoesOn job (f job)) :
    Good s (s.amend k f) :=
  h.goOn (Table.forall₂_modify hjob)

theorem Inv.sweep (h : Inv s) (clock : Nat → Nat → Nat) : Good s (s.sweep clock) :=
  h.goOn (forall₂_mapIdx fun _ _ _ => Job.GoesOn.ite Job.goesOn_sweep)

theorem Core.frame (h : Core s) {closed : Bool} {closing : List (Option Nat)} {immediates : Nat} :
    Core { s with closed, closing, immediates } :=
  ⟨h.runs, h.running, h.sound, h.pending, h.retained, h.keys⟩

theorem Inv.close (h : Inv s) (clock : Nat → Nat) : Good s (s.close clock) := by
  have hjob : ∀ k job, s.jobs[k]? = some job →
      Job.GoesOn job (if job.retained then job.cancel (clock k) else job) :=
    fun _ _ _ => Job.GoesOn.ite Job.goesOn_cancel
  have hjobs := h.goOn (forall₂_mapIdx hjob)
  have hcore : Core (s.close clock) := hjobs.inv.toCore.frame
  exact ⟨{ hcore with progress := nofun }, hjobs.keeps⟩

theorem Inv.clear (h : Inv s) (c : Nat) : Good s (s.clear c) := by
  unfold Service.clear
  split
  · split
    · exact h.good
    · have hjobs :=
        h.goOn (List.forall₂_map_right_iff.mpr (List.forall₂_same.mpr fun job _ => Job.goesOn_drop))
      exact ⟨{ hjobs.inv.toCore.frame with progress := hjobs.inv.progress }, hjobs.keeps⟩
  · exact h.good

/-! ## The worker -/

/-- A pump takes up a queued job, unless a run is in progress or nothing is queued. -/
theorem Core.pump (h : Core s) : Inv s.pump ∧ s.pump.jobs = s.jobs := by
  unfold Service.pump
  split
  · next hbusy =>
    refine ⟨{ h with progress := fun hopen job _ _ _ => .inl ?_ }, rfl⟩
    rw [hopen, Bool.false_or] at hbusy
    obtain ⟨k, hk⟩ := Option.isSome_iff_exists.mp hbusy
    rw [h.runs, hk]
    exact List.cons_ne_nil _ _
  · next hidle =>
    rw [Bool.or_eq_true, not_or, Bool.not_eq_true, Bool.not_eq_true, Option.isSome_eq_false_iff,
      Option.isNone_iff_eq_none] at hidle
    have hruns : s.runs = [] := by rw [h.runs, hidle.2]; rfl
    split
    · next hnone =>
      refine ⟨{ h with progress := fun _ job hjob hretained hqueued => ?_ }, rfl⟩
      obtain ⟨k, hk⟩ := List.mem_iff_getElem?.mp hjob
      have hcond := find_none hnone hk hretained
      rw [hqueued] at hcond
      cases hcond
    · next job k hfound =>
      obtain ⟨hjob, -, hqueued⟩ := find_some hfound
      refine ⟨{ runs := ?_, running := fun j hj => ?_, sound := h.sound, pending := h.pending,
                retained := h.retained, keys := h.keys,
                progress := fun _ _ _ _ _ => .inl ?_ }, rfl⟩
      · rw [hruns]
        rfl
      · rw [hruns, List.nil_append, List.mem_singleton] at hj
        rw [hj]
        refine ⟨job, hjob, .inr ?_⟩
        rw [beq_iff_eq.mp hqueued]
        rfl
      · simp

theorem Inv.immediate (h : Inv s) : Good s (s.step .immediate) := by
  unfold Service.step
  dsimp only
  split
  · exact h.good
  · have hcore : Core { s with immediates := s.immediates - 1 } := h.toCore.frame
    obtain ⟨hinv, hjobs⟩ := hcore.pump
    refine ⟨hinv, fun k job hjob hstate => ⟨job, ?_, hstate⟩⟩
    rw [hjobs]
    exact hjob

theorem Inv.settle (h : Inv s) (k : Nat)
    (result : Except Thrown (String × Option ManagedExportSummary)) (now : Nat) :
    Good s (s.settle k result now) := by
  unfold Service.settle
  split
  · next hk =>
    obtain ⟨job, hjob, hruns⟩ := h.running k hk
    have hlater : List.Forall₂ Job.Later s.jobs (s.jobs.modify k fun job =>
        job.conclude result now) :=
      Table.forall₂_modify fun other hother => by
        cases hjob.symm.trans hother
        exact Job.later_conclude hruns
    -- The run that settles is the only one.
    have hnone : s.runs.erase k = [] := by
      rw [h.runs] at hk ⊢
      rw [Option.mem_toList.mp hk]
      exact List.erase_cons_head ..
    have hcore : Core { s.amend k fun job => job.conclude result now with
        active := none, runs := s.runs.erase k } :=
      h.toCore.later hlater hnone fun j hj => by
        rw [hnone] at hj
        cases hj
    obtain ⟨hinv, hjobs⟩ := hcore.pump
    refine ⟨hinv, keeps_of_later ?_⟩
    rw [hjobs]
    exact hlater
  · exact h.good

/-! ## Admission -/

theorem pendingCount_eq :
    s.pendingCount = s.jobs.countP fun job => job.state.pending && job.retained := by
  rw [pendingCount, retained, List.filter_filter, List.countP_eq_length_filter]

theorem Inv.append (h : Inv s) {created : Nat} (hfree : s.Free key) (hpending : s.pendingCount < 4)
    (hretained : s.retained.length < 32) :
    Good s { s with jobs := s.jobs ++ [{ key, createdAt := created, exportMode }],
                    immediates := s.immediates + 1 } := by
  have hold : ∀ {k : Nat} {job : Job}, s.jobs[k]? = some job →
      (s.jobs ++ [{ key, createdAt := created, exportMode }])[k]? = some job := by
    intro k job hjob
    rw [List.getElem?_append_left (List.getElem?_eq_some_iff.mp hjob).1, hjob]
  have hcases : ∀ {k : Nat} {job : Job},
      (s.jobs ++ [{ key, createdAt := created, exportMode }])[k]? = some job →
      s.jobs[k]? = some job ∨ k = s.jobs.length ∧ job.key = key := by
    intro k job hjob
    rw [List.getElem?_append] at hjob
    split at hjob
    · exact .inl hjob
    · next hlen =>
      have hlt := (List.getElem?_eq_some_iff.mp hjob).1
      have hnew := List.mem_singleton.mp (List.mem_of_getElem? hjob)
      rw [List.length_singleton] at hlt
      exact .inr ⟨by omega, by rw [hnew]⟩
  have hother : ∀ {k : Nat} {job : Job}, s.jobs[k]? = some job → job.retained = true →
      job.state.live = true → job.key ≠ key :=
    fun hjob => hfree _ (List.mem_of_getElem? hjob)
  refine ⟨⟨⟨h.runs, fun k hk => ?_, ?_, ?_, ?_, fun i j a b ha hb hra hrb hla hlb hkey => ?_⟩,
    fun _ _ _ _ _ => .inr (Nat.succ_pos _)⟩,
    fun k job hjob hstate => ⟨job, hold hjob, hstate⟩⟩
  · obtain ⟨job, hjob, hruns⟩ := h.running k hk
    exact ⟨job, hold hjob, hruns⟩
  · simp only [List.forall_mem_append, List.forall_mem_singleton]
    exact ⟨h.sound, ⟨rfl, nofun⟩⟩
  · rw [pendingCount_eq] at hpending ⊢
    rw [List.countP_append]
    exact hpending
  · rw [retained] at hretained ⊢
    rw [List.filter_append, List.length_append]
    exact hretained
  · rcases hcases ha with ha | ⟨hi, hka⟩ <;> rcases hcases hb with hb | ⟨hj, hkb⟩
    · exact h.keys i j a b ha hb hra hrb hla hlb hkey
    · exact absurd (hkey.trans hkb) (hother ha hra hla)
    · exact absurd (hkey.symm.trans hka) (hother hb hrb hlb)
    · rw [hi, hj]

theorem makeRoom_spec {s₀ : Service} (h : Good s₀ s) (hfree : s.Free key)
    (hpending : s.pendingCount < 4) :
    wp makeRoom (fun _ s' => Good s₀ s' ∧ s'.Free key ∧ s'.pendingCount < 4 ∧
      s'.retained.length < 32) (fun _ => Good s₀) s := by
  unfold makeRoom
  rw [wp_bind, wp_get, wp_ite]
  refine ⟨fun hfull => ?_, fun hroom => wp_pure.mpr ⟨h, hfree, hpending, Nat.lt_of_not_le hroom⟩⟩
  split
  · next job k hfound =>
    obtain ⟨hjob, hretained, -⟩ := find_some hfound
    have hjobs : List.Forall₂ Job.GoesOn s.jobs (s.jobs.modify k fun job =>
        { job with retained := false }) :=
      Table.forall₂_modify fun _ _ => Job.goesOn_drop
    have hlater := hjobs.imp fun _ _ hgoesOn => hgoesOn.toLater
    refine wp_modify.mpr ⟨h.trans (h.inv.goOn hjobs), hfree.later hlater,
      Nat.lt_of_le_of_lt (pendingCount_le hlater) hpending, ?_⟩
    have hcount :=
      Table.countP_modify (p := fun job => job.retained)
        (f := fun job => { job with retained := false }) hjob
    rw [if_pos hretained, if_neg nofun, List.countP_eq_length_filter,
      List.countP_eq_length_filter] at hcount
    have hbound := h.inv.retained
    rw [retained] at hbound ⊢
    dsimp only [amend]
    omega
  · exact h

theorem enter_spec {s₀ : Service} {created : Nat} (h : Good s₀ s) (hfree : s.Free key) :
    wp (enter key exportMode created) (fun _ => Good s₀) (fun _ => Good s₀) s := by
  unfold enter
  rw [wp_bind, wp_get, wp_bind, wp_refuseIf]
  refine ⟨fun _ => h, fun hcount => ?_⟩
  have hpending : s.pendingCount < 4 := Nat.lt_of_not_le (of_decide_eq_false hcount)
  refine (makeRoom_spec h hfree hpending).bind fun _ s' ⟨h', hfree', hpending', hretained'⟩ => ?_
  rw [wp_bind, wp_get, wp_bind, wp_modify, wp_pure]
  exact h'.trans (h'.inv.append hfree' hpending' hretained')

theorem start_spec {valid : Bool} {clock : Readings} (h : Inv s) :
    wp (start key valid exportMode clock) (fun _ => Good s) (fun _ => Good s) s := by
  unfold start
  rw [wp_bind, wp_modify, wp_bind, wp_get, wp_bind, wp_refuseIf]
  have hswept := h.sweep clock.sweep
  refine ⟨fun _ => hswept, fun _ => ?_⟩
  rw [wp_bind, wp_get]
  generalize s.sweep clock.sweep = s₁ at hswept ⊢
  split
  · next hnone =>
    refine enter_spec hswept fun job hjob hretained hlive heq => ?_
    obtain ⟨k, hk⟩ := List.mem_iff_getElem?.mp hjob
    have hcond := find_none hnone hk hretained
    rw [hlive, heq, beq_self_eq_true] at hcond
    cases hcond
  · next job k hfound =>
    obtain ⟨hjob, hretained, hcond⟩ := find_some hfound
    obtain ⟨hkey, hlive⟩ := Bool.and_eq_true_iff.mp hcond
    rw [wp_ite]
    refine ⟨fun _ => ?_, fun _ => wp_pure.mpr hswept⟩
    rw [wp_bind, wp_modify]
    refine enter_spec (hswept.trans (hswept.inv.amend fun _ _ => Job.goesOn_expire))
      fun other hother hretained' hlive' heq => ?_
    -- The only live job of the key has just expired.
    obtain ⟨j, hj⟩ := List.mem_iff_getElem?.mp hother
    obtain ⟨old, hold, hother⟩ := Table.exists_of_modify hj
    split at hother
    · rw [hother] at hlive'
      cases hlive'
    · next hkj =>
      subst hother
      exact hkj (hswept.inv.keys k j job other hjob hold hretained hretained' hlive hlive'
        ((beq_iff_eq.mp hkey).trans heq.symm))

theorem get_spec {id : Option Nat} {clock : Nat → Nat → Nat} (h : Inv s) :
    wp (Service.get key id clock) (fun _ => Good s) (fun _ => Good s) s := by
  unfold Service.get
  cases id with
  | none => exact h.good
  | some k =>
      have hswept := h.sweep clock
      rw [wp_bind, wp_modify, wp_bind, wp_get, wp_bind, wp_refuseIf]
      exact ⟨fun _ => hswept, fun _ => wp_pure.mpr hswept⟩

theorem Inv.step (h : Inv s) (l : Label) : Good s (s.step l) := by
  cases l with
  | start key valid exportMode clock => exact wp_iff_after.mp (start_spec h)
  | get key id clock => exact wp_iff_after.mp (get_spec h)
  | expire k now => exact h.amend fun _ _ => Job.goesOn_expire
  | cancel k now => exact h.amend fun _ _ => Job.goesOn_cancel
  | timer clock =>
      unfold Service.step
      dsimp only
      split
      · exact h.good
      · exact h.sweep clock
  | immediate => exact h.immediate
  | stage k reported =>
      unfold Service.step
      dsimp only
      split
      · next hk =>
        obtain ⟨job, hjob, hruns⟩ := h.running k hk
        refine h.amend fun other hother => ?_
        cases hjob.symm.trans hother
        cases reported with
        | indexing => exact Job.goesOn_stage hruns rfl nofun
        | validating => exact Job.goesOn_stage hruns rfl nofun
      · exact h.good
  | settle k result now => exact h.settle k result now
  | close clock => exact h.close clock
  | clear c => exact h.clear c

theorem Inv.run (h : Inv s) (labels : List Label) : Good s (labels.foldl Service.step s) := by
  induction labels generalizing s with
  | nil => exact h.good
  | cons l labels ih => exact (h.step l).trans (ih (h.step l).inv)

theorem inv_initial : Inv {} where
  runs := rfl
  running _ hk := absurd hk List.not_mem_nil
  sound _ hjob := absurd hjob List.not_mem_nil
  pending := Nat.zero_le 4
  retained := Nat.zero_le 32
  keys _ _ _ _ ha := absurd ha (by simp)
  progress _ _ hjob := absurd hjob List.not_mem_nil

/-- In every state that calls, timers and runs lead to: at most one run is in progress, four
jobs are pending and 32 retained; of a key at most one retained job is live; a job that was
withdrawn stays so; only a job that is ready holds a proof; and a queued job will be run. -/
theorem preparation_bounds (labels : List Label) :
    let s := run labels
    s.runs.length ≤ 1 ∧ (s.retained.filter (·.state.pending)).length ≤ 4 ∧ s.retained.length ≤ 32 ∧
      (∀ (i j : Nat) (a b : Job), s.jobs[i]? = some a → s.jobs[j]? = some b →
        a.retained = true → b.retained = true →
        a.state.live = true → b.state.live = true → a.key = b.key → i = j) ∧
      (∀ (later : List Label) (k : Nat) (job : Job), s.jobs[k]? = some job →
        job.state.withdrawn = true →
        ∃ job', (later.foldl step s).jobs[k]? = some job' ∧ job'.state.withdrawn = true) ∧
      (∀ job ∈ s.jobs, job.proof.isSome → job.state = .ready) ∧
      (s.closed = false → ∀ job ∈ s.jobs, job.retained = true → job.state = .queued →
        s.runs ≠ [] ∨ 0 < s.immediates) := by
  intro s
  have h : Inv s := (inv_initial.run labels).inv
  refine ⟨?_, h.pending, h.retained, h.keys, fun later => (h.run later).keeps,
    fun job hjob => (h.sound job hjob).proof, h.progress⟩
  rw [h.runs]
  exact Option.length_toList_le

end Service

end Pluton.DownloadPreparation
