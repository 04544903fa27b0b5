-- SUMMARY: A cancelled export stays cancelled, and a job is published only by its own live run.
import Pluton.Export.Jobs

/-!
# Cancellation

Only a run that was not aborted writes a state that is active or ready, and it starts
from a queued job. A stale row can make a status request or a sweep write that a job has
expired; such a row was ready when it was read, so no run of that job is left.
-/
namespace Pluton.Export

/-- The event gives the job a state that it must not have again, or lets a download pass. -/
def Event.revives (id : String) : Event → Bool
  | wrote other _ _ after _ => other == id && (after == .ready || activeExport after)
  | authorized other => other == id
  | _ => false

/-- A state that a run may publish from. -/
def Published (log : List Event) : Event → Prop
  | .wrote id kind before .ready aborted =>
      aborted = false ∧
        if kind = .archive then before = .verifying
        else before = .validating ∨ before = .failed ∧ .interrupted id ∈ log
  | _ => True

/-! ## The invariant -/

/-- The state of a job while a run of it that was not aborted waits at that place. -/
def Place.holds (place : Place) (state : ExportState) : Bool :=
  match place with
  | .isolating => state == .queued
  | .inventorying | .modeChecking | .preflighting => state == .validating
  | _ => activeExport state

/-- The kinds whose runs come to the place. -/
def Place.admits (place : Place) (kind : Kind) : Bool :=
  match place with
  | .isolating | .inventorying | .cleaning | .settled => true
  | .preflighting => kind != .inventory
  | _ => kind == .archive

/-- A row that a status request or the sweep still holds. -/
def Copied (s : Service) (copy : ExportJob) : Prop :=
  .statusOwned copy ∈ s.requests ∨ ∃ rest, s.sweeping = some rest ∧ copy ∈ rest

/-- What holds while a run is in its `try`. -/
structure Running (s : Service) (run : ActiveRun) : Prop where
  admits : run.place.admits run.kind = true
  kind : ∀ row ∈ s.jobs, row.id = run.id → row.kind = run.kind
  aborted : run.aborted = true → ∀ row ∈ s.jobs, row.id = run.id → row.state = .cancelled
  state : run.aborted = false → ∀ row ∈ s.jobs, row.id = run.id →
    run.place.holds row.state = true ∨ row.state = .failed ∧ .interrupted run.id ∈ s.log
  calm : run.aborted = false → .cancelled run.id ∉ s.log
  fresh : ∀ copy, Copied s copy → copy.id = run.id → copy.state ≠ .ready

structure Inv (s : Service) : Prop where
  keys : (s.jobs.map fun job => job.id).Nodup
  inert : ∀ id, .cancelled id ∈ s.log → ∀ row ∈ s.jobs, row.id = id → row.state.inert = true
  running : ∀ run, s.active = some run → run.place.live = true → Running s run
  stale : ∀ copy, Copied s copy → copy.state = .ready → ∀ row ∈ s.jobs, row.id = copy.id →
    activeExport row.state = false
  order : s.log.Pairwise fun a b => ∀ id, a = .cancelled id → b.revives id = false
  published : ∀ event ∈ s.log, Published s.log event

variable {s s' : Service} {run : ActiveRun} {id : String} {job : ExportJob} {state : ExportState}
  {extra : List Event} {place : Place} {row : ExportJob} {configured : Option ExportConfig}
  {copy : ExportJob} {cleaner : Bool} {stage : Stage} {failure : Failure} {request : Request}

/-! ## Rows -/

/-- What the invariant sees of a row. -/
def face (row : ExportJob) : String × Kind × ExportState := (row.id, row.kind, row.state)

theorem get_eq_some (hkeys : (s.jobs.map fun job => job.id).Nodup) :
    s.get id = some job ↔ job ∈ s.jobs ∧ job.id = id := by
  constructor
  · intro h
    unfold Service.get at h
    have hid := List.find?_some h
    exact ⟨List.mem_of_find?_eq_some h, beq_iff_eq.mp hid⟩
  · rintro ⟨hjob, rfl⟩
    exact Table.find?_key hkeys hjob

theorem write_of_get {set : ExportJob → ExportJob} (hget : s.get id = some job) :
    s.write id state set =
      { s with
        jobs :=
          Table.update s.jobs (fun row => row.id == id) fun row => { set row with state := state }
        log := s.log ++ [.wrote id job.kind job.state state (s.abortedRun id)] } := by
  unfold Service.write
  rw [hget]

/-- The rows after a write: those of the job have the new state, the others are as before. -/
theorem mem_update_state {set : ExportJob → ExportJob}
    (hset : ∀ row, (set row).id = row.id ∧ (set row).kind = row.kind)
    (hrow : row ∈ Table.update s.jobs (fun row => row.id == id) fun row =>
      { set row with state := state }) :
    (∃ old ∈ s.jobs, old.id = id ∧ row.id = id ∧ row.kind = old.kind ∧ row.state = state) ∨
      row ∈ s.jobs ∧ row.id ≠ id := by
  obtain ⟨old, hold, rfl⟩ := Table.mem_update.mp hrow
  split
  · next hid =>
      have hid := beq_iff_eq.mp hid
      exact .inl ⟨old, hold, hid, (hset old).1.trans hid, (hset old).2, rfl⟩
  · next hid => exact .inr ⟨hold, fun heq => hid (beq_iff_eq.mpr heq)⟩

theorem keys_update {set : ExportJob → ExportJob} (hset : ∀ row, (set row).id = row.id)
    (hkeys : (s.jobs.map fun job => job.id).Nodup) :
    ((Table.update s.jobs (fun row => row.id == id) set).map fun job => job.id).Nodup :=
  Table.nodup_update hset hkeys

/-! ## Steps that the invariant does not see -/

/-- No state, no event, no new live run; the rows that are newly held are as they stand. -/
structure Quiet (s s' : Service) : Prop where
  jobs : s'.jobs.map face = s.jobs.map face
  log : s'.log = s.log
  active : ∀ run', s'.active = some run' → run'.place.live = true → ∃ run, s.active = some run ∧
    run.place.live = true ∧ run'.id = run.id ∧ run'.kind = run.kind ∧ run'.aborted = run.aborted ∧
    (run.place.admits run.kind = true → run'.place.admits run.kind = true) ∧
    ∀ state, run.place.holds state = true → run'.place.holds state = true
  copies : ∀ copy, Copied s' copy → Copied s copy ∨ copy ∈ s.jobs

theorem mem_of_faces (hfaces : s'.jobs.map face = s.jobs.map face) (hrow : row ∈ s'.jobs) :
    ∃ old ∈ s.jobs, old.id = row.id ∧ old.kind = row.kind ∧ old.state = row.state := by
  have hmem : face row ∈ s.jobs.map face := hfaces ▸ List.mem_map_of_mem hrow
  obtain ⟨old, hold, heq⟩ := List.mem_map.mp hmem
  simp only [face, Prod.mk.injEq] at heq
  exact ⟨old, hold, heq⟩

theorem keys_of_faces (hfaces : s'.jobs.map face = s.jobs.map face)
    (hkeys : (s.jobs.map fun job => job.id).Nodup) : (s'.jobs.map fun job => job.id).Nodup := by
  have hids : s'.jobs.map (fun job => job.id) = s.jobs.map fun job => job.id := by
    have hfst : (s'.jobs.map face).map Prod.fst = (s.jobs.map face).map Prod.fst := by rw [hfaces]
    simpa only [List.map_map, Function.comp_def, face] using hfst
  rw [hids]
  exact hkeys

/-- While a run is in its `try`, the rows of its job are not ready. -/
theorem Running.not_ready (h : Running s run) (hrow : row ∈ s.jobs) (hid : row.id = run.id) :
    row.state ≠ .ready := by
  intro hready
  cases haborted : run.aborted with
  | true =>
      have hcancelled := h.aborted haborted row hrow hid
      rw [hready] at hcancelled
      cases hcancelled
  | false =>
      rcases h.state haborted row hrow hid with hholds | ⟨hfailed, -⟩
      · rw [hready] at hholds
        cases hplace : run.place <;> rw [hplace] at hholds <;> cases hholds
      · rw [hready] at hfailed
        cases hfailed

theorem Inv.quiet (h : Inv s) (hquiet : Quiet s s') : Inv s' where
  keys := keys_of_faces hquiet.jobs h.keys
  order := by
    rw [hquiet.log]
    exact h.order
  published := by
    rw [hquiet.log]
    exact h.published
  stale copy hcopy hready row hrow hid := by
    obtain ⟨old, hold, holdId, -, hstate⟩ := mem_of_faces hquiet.jobs hrow
    rw [← hstate]
    -- The copy was held before, or it is a row of this moment.
    rcases hquiet.copies copy hcopy with hheld | hmem
    · exact h.stale copy hheld hready old hold (holdId.trans hid)
    · have hsame : old = copy := List.inj_on_of_nodup_map h.keys hold hmem (holdId.trans hid)
      rw [hsame, hready]
      rfl
  inert other hcancelled row hrow hid := by
    rw [hquiet.log] at hcancelled
    obtain ⟨old, hold, holdId, -, hstate⟩ := mem_of_faces hquiet.jobs hrow
    rw [← hstate]
    exact h.inert other hcancelled old hold (holdId.trans hid)
  running run' hactive hlive := by
    obtain ⟨run, hrun, hrunLive, hid, hkind, haborted, hadmits, hplace⟩ :=
      hquiet.active run' hactive hlive
    have hrunning := h.running run hrun hrunLive
    -- The run that goes on has the id, the kind and the signal of the run before.
    refine { admits := hkind ▸ hadmits hrunning.admits, kind := ?_, aborted := ?_, state := ?_,
             calm := ?_, fresh := ?_ }
    · intro row hrow hrowId
      obtain ⟨old, hold, holdId, holdKind, -⟩ := mem_of_faces hquiet.jobs hrow
      rw [← holdKind, hkind]
      exact hrunning.kind old hold (holdId.trans (hrowId.trans hid))
    · intro hab row hrow hrowId
      obtain ⟨old, hold, holdId, -, hstate⟩ := mem_of_faces hquiet.jobs hrow
      rw [← hstate]
      exact hrunning.aborted (haborted ▸ hab) old hold (holdId.trans (hrowId.trans hid))
    · intro hab row hrow hrowId
      obtain ⟨old, hold, holdId, -, hstate⟩ := mem_of_faces hquiet.jobs hrow
      rw [← hstate, hquiet.log, hid]
      exact (hrunning.state (haborted ▸ hab) old hold (holdId.trans (hrowId.trans hid))).imp_left
        (hplace _)
    · intro hab
      rw [hquiet.log, hid]
      exact hrunning.calm (haborted ▸ hab)
    · intro copy hcopy hcopyId
      rcases hquiet.copies copy hcopy with hheld | hrow
      · exact hrunning.fresh copy hheld (hcopyId.trans hid)
      · exact hrunning.not_ready hrow (hcopyId.trans hid)

/-! ## Writes of a state -/

theorem Published.mono {log log' : List Event} {event : Event} (h : Published log event) :
    Published (log ++ log') event := by
  cases event with
  | wrote id kind before after aborted =>
      cases after with
      | ready =>
          refine ⟨h.1, ?_⟩
          have hbefore := h.2
          split
          · next hkind => rwa [if_pos hkind] at hbefore
          · next hkind =>
              rw [if_neg hkind] at hbefore
              exact hbefore.imp_right fun hfailed => ⟨hfailed.1, List.mem_append_left _ hfailed.2⟩
      | _ => trivial
  | _ => trivial

/-- A step that writes a state of one job and notes at most that. -/
structure Writes (s s' : Service) (job : ExportJob) (state : ExportState) (extra : List Event) :
    Prop where
  found : s.get job.id = some job
  jobs : ∃ set : ExportJob → ExportJob, (∀ row, (set row).id = row.id ∧ (set row).kind = row.kind) ∧
    s'.jobs = Table.update s.jobs (fun row => row.id == job.id) fun row =>
      { set row with state := state }
  log : s'.log = s.log ++ (.wrote job.id job.kind job.state state (s.abortedRun job.id) :: extra)
  copies : ∀ copy, Copied s' copy → Copied s copy
  noted : extra = [] ∨ extra = [.cancelled job.id] ∨ extra = [.interrupted job.id]

/-- What a run that is still in its `try` after the write owes. -/
structure Kept (s s' : Service) (id : String) (state : ExportState) (extra : List Event)
    (run' : ActiveRun) : Prop where
  admits : run'.place.admits run'.kind = true
  before : ∃ run, s.active = some run ∧ run.place.live = true ∧ run.id = run'.id ∧
    run.kind = run'.kind ∧
    (run'.id ≠ id → run = run') ∧ (run'.aborted = false → run.aborted = false)
  aborted : run'.id = id → run'.aborted = true → state = .cancelled
  state : run'.id = id → run'.aborted = false →
    run'.place.holds state = true ∨ state = .failed ∧ .interrupted id ∈ s'.log
  calm : run'.id = id → run'.aborted = false → .cancelled id ∉ extra

theorem Writes.mem_jobs (hwrites : Writes s s' job state extra) (hrow : row ∈ s'.jobs) :
    (∃ old ∈ s.jobs, old.id = job.id ∧ row.id = job.id ∧ row.kind = old.kind ∧ row.state = state) ∨
      row ∈ s.jobs ∧ row.id ≠ job.id := by
  obtain ⟨set, hset, hjobs⟩ := hwrites.jobs
  rw [hjobs] at hrow
  exact mem_update_state hset hrow

theorem Writes.mem_log (hwrites : Writes s s' job state extra) {event : Event} (h : event ∈ s.log) :
    event ∈ s'.log := by
  rw [hwrites.log]
  exact List.mem_append_left _ h

/-- A cancellation that is in the log after a write was there before, or is the one noted. -/
theorem Writes.cancelled (hwrites : Writes s s' job state extra) {other : String}
    (h : .cancelled other ∈ s'.log) :
    .cancelled other ∈ s.log ∨ .cancelled other ∈ extra := by
  rw [hwrites.log, List.mem_append, List.mem_cons] at h
  rcases h with hold | hwrote | hextra
  · exact .inl hold
  · cases hwrote
  · exact .inr hextra

theorem Writes.of_extra (hwrites : Writes s s' job state extra) {other : String}
    (h : .cancelled other ∈ extra) :
    other = job.id := by
  rcases hwrites.noted with rfl | rfl | rfl
  · cases h
  · cases List.mem_singleton.mp h
    rfl
  · cases List.mem_singleton.mp h

theorem Inv.writes (h : Inv s) (hwrites : Writes s s' job state extra)
    (hinert : .cancelled job.id ∈ s.log ∨ .cancelled job.id ∈ extra → state.inert = true)
    (hactive : activeExport state = true → ∀ copy, Copied s copy → copy.id = job.id →
      copy.state ≠ .ready)
    (hpublished : Published s.log (.wrote job.id job.kind job.state state (s.abortedRun job.id)))
    (hkept : ∀ run', s'.active = some run' → run'.place.live = true →
      Kept s s' job.id state extra run') : Inv s' where
  keys := by
    obtain ⟨set, hset, hjobs⟩ := hwrites.jobs
    rw [hjobs]
    exact keys_update (fun row => (hset row).1) h.keys
  inert other hcancelled row hrow hid := by
    rcases hwrites.mem_jobs hrow with ⟨old, hold, holdId, hrowId, -, hstate⟩ | ⟨hold, hne⟩
    · rw [hstate]
      have hsame : other = job.id := hid.symm.trans hrowId
      subst hsame
      exact hinert (hwrites.cancelled hcancelled)
    · rcases hwrites.cancelled hcancelled with hbefore | hextra
      · exact h.inert other hbefore row hold hid
      · exact absurd (hid.trans (hwrites.of_extra hextra)) hne
  running run' hrun' hlive := by
    have hk := hkept run' hrun' hlive
    obtain ⟨run, hrun, hrunLive, hid, hkind, hsame, haborted⟩ := hk.before
    have hrunning := h.running run hrun hrunLive
    -- a row of the run is the one that was written, or it was there before
    refine { admits := hk.admits, kind := ?_, aborted := ?_, state := ?_, calm := ?_, fresh := ?_ }
    · intro row hrow hrowId
      rw [← hkind]
      rcases hwrites.mem_jobs hrow with ⟨old, hold, holdId, hrowJob, hrowKind, -⟩ | ⟨hold, -⟩
      · rw [hrowKind]
        exact hrunning.kind old hold (holdId.trans (hrowJob.symm.trans (hrowId.trans hid.symm)))
      · exact hrunning.kind row hold (hrowId.trans hid.symm)
    · intro hab row hrow hrowId
      rcases hwrites.mem_jobs hrow with ⟨old, hold, holdId, hrowJob, -, hstate⟩ | ⟨hold, hne⟩
      · rw [hstate]
        exact hk.aborted (hrowId.symm.trans hrowJob) hab
      · obtain rfl := hsame fun heq => hne (hrowId.trans heq)
        exact hrunning.aborted hab row hold hrowId
    · intro hab row hrow hrowId
      rcases hwrites.mem_jobs hrow with ⟨old, hold, holdId, hrowJob, -, hstate⟩ | ⟨hold, hne⟩
      · rw [hstate]
        have hsameId : run'.id = job.id := hrowId.symm.trans hrowJob
        rw [hsameId]
        exact hk.state hsameId hab
      · obtain rfl := hsame fun heq => hne (hrowId.trans heq)
        exact (hrunning.state hab row hold hrowId).imp_right fun hfailed =>
          ⟨hfailed.1, hwrites.mem_log hfailed.2⟩
    · intro hab hcancelled
      rcases hwrites.cancelled hcancelled with hbefore | hextra
      · exact hrunning.calm (haborted hab) (hid ▸ hbefore)
      · have hsameId := hwrites.of_extra hextra
        exact hk.calm hsameId hab (hsameId ▸ hextra)
    · intro copy hcopy hcopyId
      exact hrunning.fresh copy (hwrites.copies copy hcopy) (hcopyId.trans hid.symm)
  stale copy hcopy hready row hrow hid := by
    have hheld := hwrites.copies copy hcopy
    rcases hwrites.mem_jobs hrow with ⟨old, hold, holdId, hrowJob, -, hstate⟩ | ⟨hold, -⟩
    · rw [hstate]
      cases hact : activeExport state with
      | false => rfl
      | true => exact absurd hready (hactive hact copy hheld (hid.symm.trans hrowJob))
    · exact h.stale copy hheld hready row hold hid
  order := by
    rw [hwrites.log, List.pairwise_append]
    have hquiet : ∀ event ∈ extra, ∀ other, event.revives other = false := by
      intro event hevent other
      rcases hwrites.noted with rfl | rfl | rfl
      · cases hevent
      · rw [List.mem_singleton.mp hevent]
        rfl
      · rw [List.mem_singleton.mp hevent]
        rfl
    refine ⟨h.order, ?_, ?_⟩
    · rw [List.pairwise_cons]
      refine ⟨(fun _ _ _ heq => by cases heq), ?_⟩
      rcases hwrites.noted with rfl | rfl | rfl
      · exact List.Pairwise.nil
      · exact List.pairwise_singleton _ _
      · exact List.pairwise_singleton _ _
    · rintro _ hmem event hevent other rfl
      rcases List.mem_cons.mp hevent with rfl | hextra
      -- a job that has been cancelled before is written to an inert state only
      · by_cases hsame : job.id = other
        · subst hsame
          have hfinal := hinert (.inl hmem)
          cases state <;> first | rfl | cases hfinal
          all_goals simp [Event.revives, activeExport]
        · simp [Event.revives, hsame]
      · exact hquiet event hextra other
  published event hevent := by
    rw [hwrites.log] at hevent ⊢
    rcases List.mem_append.mp hevent with hold | hnew
    · exact (h.published event hold).mono
    · rcases List.mem_cons.mp hnew with rfl | hextra
      · exact hpublished.mono
      · rcases hwrites.noted with rfl | rfl | rfl
        · cases hextra
        · rw [List.mem_singleton.mp hextra]
          trivial
        · rw [List.mem_singleton.mp hextra]
          trivial

/-! ## The parts of the service -/

theorem copied_of_eq (hrequests : s'.requests = s.requests) (hsweeping : s'.sweeping = s.sweeping)
    (h : Copied s' copy) : Copied s copy := by
  unfold Copied at h ⊢
  rwa [hrequests, hsweeping] at h

/-- The step leaves all that the invariant reads as it is. -/
structure Same (s s' : Service) : Prop where
  jobs : s'.jobs.map face = s.jobs.map face
  log : s'.log = s.log
  active : s'.active = s.active
  requests : s'.requests = s.requests
  sweeping : s'.sweeping = s.sweeping

theorem Same.quiet (h : Same s s') : Quiet s s' where
  jobs := h.jobs
  log := h.log
  active run' hrun' hlive :=
    ⟨run', h.active ▸ hrun', hlive, rfl, rfl, rfl, fun h => h, fun _ h => h⟩
  copies _ hcopy := .inl (copied_of_eq h.requests h.sweeping hcopy)

theorem faces_amend {set : ExportJob → ExportJob} (hset : ∀ row, face (set row) = face row) :
    (s.amend id set).jobs.map face = s.jobs.map face :=
  Table.map_update hset

theorem amend_same {set : ExportJob → ExportJob} (hset : ∀ row, face (set row) = face row) :
    Same s (s.amend id set) :=
  ⟨faces_amend hset, rfl, rfl, rfl, rfl⟩

theorem cleanup_same {explicit configured : Bool} : Same s (s.cleanup job explicit configured) := by
  unfold Service.cleanup
  split
  · exact ⟨rfl, rfl, rfl, rfl, rfl⟩
  · split
    · exact ⟨rfl, rfl, rfl, rfl, rfl⟩
    · exact ⟨faces_amend fun _ => rfl, rfl, rfl, rfl, rfl⟩

theorem resumeCleanup_same {returned : Bool} : Same s (s.resumeCleanup id returned) := by
  unfold Service.resumeCleanup
  split
  · exact ⟨rfl, rfl, rfl, rfl, rfl⟩
  · split
    · exact ⟨rfl, rfl, rfl, rfl, rfl⟩
    · cases returned with
      | true => exact ⟨faces_amend fun _ => rfl, rfl, rfl, rfl, rfl⟩
      | false => exact ⟨rfl, rfl, rfl, rfl, rfl⟩
    · exact ⟨rfl, rfl, rfl, rfl, rfl⟩

/-- The run goes on to a place that asks no more of the state of its job. -/
theorem Quiet.setPlace (hrun : s.active = some run) (hlive : run.place.live = true)
    (hadmits : run.place.admits run.kind = true → place.admits run.kind = true)
    (hholds : ∀ state, run.place.holds state = true → place.holds state = true) :
    Quiet s (s.setPlace { run with stage := stage } place) where
  jobs := rfl
  log := rfl
  copies _ h := .inl h
  active run' hrun' _ := by
    cases hrun'
    exact ⟨run, hrun, hlive, rfl, rfl, rfl, hadmits, hholds⟩

/-- A run that has left its `try` is of no concern. -/
theorem Quiet.left (hplace : place.live = false) :
    Quiet s (s.setPlace run place) where
  jobs := rfl
  log := rfl
  copies _ h := .inl h
  active run' hrun' hlive := by
    cases hrun'
    rw [show ({ run with place := place } : ActiveRun).place.live = place.live from rfl,
      hplace] at hlive
    cases hlive

theorem writes_of (hkeys : (s.jobs.map fun job => job.id).Nodup) {set : ExportJob → ExportJob}
    (hget : s.get id = some job) (hjobs : s'.jobs = (s.write id state set).jobs)
    (hset : ∀ row, (set row).id = row.id ∧ (set row).kind = row.kind)
    (hlog : s'.log = (s.write id state set).log ++ extra) (hrequests : s'.requests = s.requests)
    (hsweeping : s'.sweeping = s.sweeping)
    (hnoted : extra = [] ∨ extra = [.cancelled job.id] ∨ extra = [.interrupted job.id]) :
    Writes s s' job state extra := by
  obtain ⟨hjob, rfl⟩ := (get_eq_some hkeys).mp hget
  rw [write_of_get hget] at hjobs hlog
  exact { found := hget, jobs := ⟨set, hset, hjobs⟩, log := by simpa using hlog, noted := hnoted,
          copies := fun _ => copied_of_eq hrequests hsweeping }

theorem write_none {set : ExportJob → ExportJob} (hget : s.get id = none) :
    s.write id state set = s := by
  unfold Service.write
  rw [hget]

theorem activeExport_of_inert (h : state.inert = true) :
    activeExport state = false := by
  cases state <;> first | rfl | cases h

/-- A job of which no run is in its `try` is given up. -/
theorem Inv.giveUp (h : Inv s) {set : ExportJob → ExportJob}
    (hset : ∀ row, (set row).id = row.id ∧ (set row).kind = row.kind) (hstate : state.inert = true)
    (hrun : ∀ run, s.active = some run → run.place.live = true → run.id ≠ id) :
    Inv (s.write id state set) := by
  cases hget : s.get id with
  | none =>
      rw [write_none hget]
      exact h
  | some job =>
      obtain ⟨-, rfl⟩ := (get_eq_some h.keys).mp hget
      have hactive : (s.write job.id state set).active = s.active := by rw [write_of_get hget]
      have hwrites : Writes s (s.write job.id state set) job state [] :=
        writes_of h.keys hget rfl hset (by simp) (by rw [write_of_get hget])
          (by rw [write_of_get hget]) (.inl rfl)
      refine h.writes hwrites (fun _ => hstate) (fun hact => ?_) ?_ ?_
      · rw [activeExport_of_inert hstate] at hact
        cases hact
      · cases state <;> trivial
      · intro run' hrun' hlive
        rw [hactive] at hrun'
        have hne := hrun run' hrun' hlive
        exact { admits := (h.running run' hrun' hlive).admits,
                before := ⟨run', hrun', hlive, rfl, rfl, fun _ => rfl, fun h => h⟩,
                aborted := fun heq => absurd heq hne,
                state := fun heq => absurd heq hne, calm := fun heq => absurd heq hne }

theorem Inv.expire (h : Inv s) (hcopy : Copied s copy) (hready : copy.state = .ready)
    {set : ExportJob → ExportJob}
    (hset : ∀ row, (set row).id = row.id ∧ (set row).kind = row.kind) :
    Inv (s.write copy.id .expired set) :=
  h.giveUp hset rfl fun run hrun hlive heq =>
    (h.running run hrun hlive).fresh copy hcopy heq.symm hready

theorem isReady_iff (hkeys : (s.jobs.map fun job => job.id).Nodup) :
    s.isReady id = true ↔ ∃ row ∈ s.jobs, row.id = id ∧ row.state = .ready := by
  simp only [Service.isReady, Option.any_eq_true, beq_iff_eq, get_eq_some hkeys, and_assoc]

theorem Inv.failReady (h : Inv s) {failure : ReadyFailure} : Inv (s.failReady job failure) := by
  unfold Service.failReady
  split
  · next hready =>
      obtain ⟨row, hrow, hid, hstate⟩ := (isReady_iff h.keys).mp (Bool.and_eq_true_iff.mp hready).2
      refine h.giveUp (fun _ => ⟨rfl, rfl⟩) rfl fun run hrun hlive heq => ?_
      exact (h.running run hrun hlive).not_ready hrow (hid.trans heq.symm) hstate
  · exact h

/-- A download passes a check only while the job is ready. -/
theorem Inv.authorize (h : Inv s) (hrow : row ∈ s.jobs) (hready : row.state = .ready) :
    Inv (s.authorize row.id) where
  keys := h.keys
  stale := h.stale
  inert other hcancelled := by
    rcases List.mem_append.mp hcancelled with hold | hnew
    · exact h.inert other hold
    · cases List.mem_singleton.mp hnew
  running run hrun hlive := by
    have hrunning := h.running run hrun hlive
    refine { admits := hrunning.admits, kind := hrunning.kind, aborted := hrunning.aborted,
             fresh := hrunning.fresh, state := ?_, calm := ?_ }
    · intro hab other hother hid
      exact (hrunning.state hab other hother hid).imp_right fun hfailed =>
        ⟨hfailed.1, List.mem_append_left _ hfailed.2⟩
    · intro hab hcancelled
      rcases List.mem_append.mp hcancelled with hold | hnew
      · exact hrunning.calm hab hold
      · cases List.mem_singleton.mp hnew
  order := by
    refine List.pairwise_append.mpr ⟨h.order, List.pairwise_singleton _ _, ?_⟩
    rintro _ hmem event hevent other rfl
    rw [List.mem_singleton.mp hevent]
    have hne : row.id ≠ other := by
      rintro rfl
      have hinert := h.inert row.id hmem row hrow rfl
      rw [hready] at hinert
      cases hinert
    simp [Event.revives, hne]
  published event hevent := by
    rcases List.mem_append.mp hevent with hold | hnew
    · exact (h.published event hold).mono
    · rw [List.mem_singleton.mp hnew]
      trivial

/-- A job is cancelled: its run, if there is one, is aborted. -/
theorem Inv.cancelled (h : Inv s) (hget : s.get id = some job)
    (hjobs : s'.jobs = (s.write id .cancelled (ExportJob.failWith "cancelled")).jobs)
    (hlog : s'.log = (s.write id .cancelled (ExportJob.failWith "cancelled")).log ++
      [.cancelled id])
    (hrequests : s'.requests = s.requests) (hsweeping : s'.sweeping = s.sweeping)
    (hruns : ∀ run', s'.active = some run' → ∃ run, s.active = some run ∧ run.place = run'.place ∧
      run.id = run'.id ∧ run.kind = run'.kind ∧ (run'.id ≠ id → run = run') ∧ (run'.id = id →
        run'.aborted = true)) :
    Inv s' := by
  obtain ⟨-, rfl⟩ := (get_eq_some h.keys).mp hget
  have hwrites : Writes s s' job .cancelled [.cancelled job.id] :=
    writes_of h.keys hget hjobs (fun _ => ⟨rfl, rfl⟩) hlog hrequests hsweeping (.inr (.inl rfl))
  refine h.writes hwrites (fun _ => rfl) (fun hact => by cases hact) trivial fun run' hrun' hlive =>
    ?_
  obtain ⟨run, hrun, hplace, hid, hkind, hsame, haborted⟩ := hruns run' hrun'
  have hfalse : run'.id = job.id → run'.aborted = false → False := by
    intro hid hab
    rw [haborted hid] at hab
    cases hab
  have hadmits := (h.running run hrun (hplace ▸ hlive)).admits
  rw [hplace, hkind] at hadmits
  refine { admits := hadmits,
           before := ⟨run, hrun, hplace ▸ hlive, hid, hkind, hsame, fun hab => ?_⟩,
           aborted := fun _ _ => rfl,
           state := fun hid hab => (hfalse hid hab).elim,
           calm := fun hid hab => (hfalse hid hab).elim }
  by_cases heq : run'.id = job.id
  · exact (hfalse heq hab).elim
  · rw [hsame heq]
    exact hab

theorem Inv.cancelJob (h : Inv s) {clean : ExportJob → Bool} : Inv (s.cancelJob id clean) := by
  unfold Service.cancelJob
  cases hget : s.get id with
  | none => exact h
  | some job =>
      have hwrite := @write_of_get s id job .cancelled (ExportJob.failWith "cancelled") hget
      dsimp only
      split
      · refine h.cancelled hget rfl rfl (by rw [hwrite]; rfl)
          (by rw [hwrite]; rfl) fun run' hrun' => ?_
        rw [hwrite] at hrun'
        obtain ⟨run, hrun, rfl⟩ := Option.map_eq_some_iff.mp hrun'
        refine ⟨run, hrun, ?_⟩
        split
        · next heq => exact ⟨rfl, rfl, rfl, fun hne => absurd (beq_iff_eq.mp heq) hne, fun _ => rfl⟩
        · next hne =>
            exact ⟨rfl, rfl, rfl, fun _ => rfl, fun heq => absurd (beq_iff_eq.mpr heq) hne⟩
      · next hother =>
          have hruns : ∀ run', s.active = some run' →
              ∃ run, s.active = some run ∧ run.place = run'.place ∧
              run.id = run'.id ∧ run.kind = run'.kind ∧ (run'.id ≠ id → run = run') ∧
              (run'.id = id → run'.aborted = true) := by
            intro run' hrun'
            refine ⟨run', hrun', rfl, rfl, rfl, fun _ => rfl, fun heq => absurd ?_ hother⟩
            rw [hrun', Option.any_some]
            exact beq_iff_eq.mpr heq
          split
          · refine h.cancelled hget rfl rfl (by rw [hwrite]; rfl)
              (by rw [hwrite]; rfl) fun run' hrun' => hruns run' ?_
            rw [hwrite] at hrun'
            exact hrun'
          · refine h.cancelled hget rfl rfl (by rw [hwrite]) (by rw [hwrite]) fun run' hrun' =>
              hruns run' ?_
            rw [hwrite] at hrun'
            exact hrun'

/-- A job whose state is active is marked as interrupted, also under its run. -/
theorem Inv.interrupt (h : Inv s) (hjob : job ∈ s.jobs) : Inv (s.interrupt job) := by
  unfold Service.interrupt
  split
  · next hact =>
      have hget : s.get job.id = some job := (get_eq_some h.keys).mpr ⟨hjob, rfl⟩
      have hwrite := @write_of_get s job.id job .failed (ExportJob.failWith "interrupted") hget
      have hwrites : Writes s { s.write job.id .failed (ExportJob.failWith "interrupted") with
          log :=
            (s.write job.id .failed (ExportJob.failWith "interrupted")).log ++
            [.interrupted job.id] }
          job .failed [.interrupted job.id] :=
        writes_of h.keys hget rfl (fun _ => ⟨rfl, rfl⟩) rfl (by rw [hwrite])
          (by rw [hwrite]) (.inr (.inr rfl))
      refine h.writes hwrites (fun _ => rfl)
        (fun hact => by cases hact) trivial fun run' hrun' hlive => ?_
      rw [hwrite] at hrun'
      have hrunning := h.running run' hrun' hlive
      refine { admits := hrunning.admits, aborted := fun hid hab => ?_,
               before := ⟨run', hrun', hlive, rfl, rfl, fun _ => rfl, fun h => h⟩,
               state := fun hid _ => .inr ⟨rfl, ?_⟩, calm := fun _ _ hmem => by
                 cases List.mem_singleton.mp hmem }
      · have hcancelled := hrunning.aborted hab job hjob hid.symm
        rw [hcancelled] at hact
        cases hact
      · exact List.mem_append_right _ (List.mem_singleton_self _)
  · exact h

theorem Inv.storeFailure (h : Inv s) (hget : s.get run.id = some job) {late : Bool} :
    Inv ((s.storeFailure run job.state failure late).setPlace run .settled) := by
  unfold Service.storeFailure
  dsimp only
  generalize failureReason run job.state late failure = reason
  have hwrite : ∀ state, s.write run.id state (ExportJob.failAt run.stage reason) = _ :=
    fun _ => write_of_get hget
  have hinert :
      (if reason == "cancelled" then ExportState.cancelled else .failed).inert = true := by
    split <;> rfl
  generalize (if reason == "cancelled" then ExportState.cancelled else .failed) = state at hinert ⊢
  have hwrites :
      Writes s
        ((s.write run.id state (ExportJob.failAt run.stage reason)).setPlace run .settled) job state
        [] :=
    writes_of h.keys hget rfl (fun _ => ⟨rfl, rfl⟩) (by simp [Service.setPlace])
      (by rw [hwrite]; rfl) (by rw [hwrite]; rfl) (.inl rfl)
  refine h.writes hwrites (fun _ => hinert) (fun hact => ?_) ?_ ?_
  · rw [activeExport_of_inert hinert] at hact
    cases hact
  · cases state <;> trivial
  · intro run' hrun' hlive
    cases hrun'
    cases hlive

theorem Inv.failRun (h : Inv s) {late cleaner : Bool} :
    Inv (s.failRun run failure late cleaner) := by
  unfold Service.failRun
  split
  · exact h.quiet (.left rfl)
  · next job hget =>
      have hsettled : Inv ((s.storeFailure run job.state failure late).setPlace run .settled) :=
        h.storeFailure hget
      dsimp only
      split
      · exact hsettled
      · split
        · exact hsettled
        · next row _ =>
            have hclean :
                Same _ ((s.storeFailure run job.state failure late).cleanup row false cleaner) :=
                  cleanup_same
            refine hsettled.quiet { jobs := hclean.jobs, log := hclean.log,
                                    active := ?_, copies := ?_ }
            · intro run' hrun' hlive
              cases hrun'
              cases hlive
            · exact fun copy hcopy => .inl (copied_of_eq hclean.requests hclean.sweeping hcopy)

/-! ## The run -/

theorem Inv.unbound (h : Inv s) (hrun : s.active = some run) (hlive : run.place.live = true)
    (hadmits : place.admits run.kind = true) (hget : s.get run.id = none) :
    Inv (s.setPlace { run with stage := stage } place) where
  keys := h.keys
  inert := h.inert
  stale := h.stale
  order := h.order
  published := h.published
  running run' hrun' _ := by
    cases hrun'
    have hnone : ∀ row ∈ s.jobs, row.id ≠ run.id := by
      intro row hrow heq
      rw [(get_eq_some h.keys).mpr ⟨hrow, heq⟩] at hget
      cases hget
    have hrunning := h.running run hrun hlive
    exact { admits := hadmits, kind := fun row hrow hid => absurd hid (hnone row hrow),
            aborted := fun _ row hrow hid => absurd hid (hnone row hrow),
            state := fun _ row hrow hid => absurd hid (hnone row hrow), calm := hrunning.calm,
            fresh := hrunning.fresh }

/-- The run writes an active state, and goes on to a place that allows for it. -/
theorem Inv.advance (h : Inv s) (hrun : s.active = some run) (hlive : run.place.live = true)
    (haborted : run.aborted = false) {set : ExportJob → ExportJob}
    (hset : ∀ row, (set row).id = row.id ∧ (set row).kind = row.kind)
    (hact : activeExport state = true) (hadmits : place.admits run.kind = true)
    (hholds : place.holds state = true) :
    Inv ((s.write run.id state set).setPlace { run with stage := stage } place) := by
  cases hget : s.get run.id with
  | none =>
      rw [write_none hget]
      exact h.unbound hrun hlive hadmits hget
  | some job =>
      obtain ⟨-, hid⟩ := (get_eq_some h.keys).mp hget
      have hrunning := h.running run hrun hlive
      have hwrite := @write_of_get s run.id job state set hget
      have hwrites :
          Writes s ((s.write run.id state set).setPlace { run with stage := stage } place) job state
            [] :=
        writes_of h.keys hget rfl hset (by simp [Service.setPlace]) (by rw [hwrite]; rfl)
          (by rw [hwrite]; rfl) (.inl rfl)
      refine h.writes hwrites ?_ (fun _ copy hcopy hcopyId =>
        hrunning.fresh copy hcopy (hcopyId.trans hid)) ?_ ?_
      · rintro (hmem | hmem)
        · exact absurd (hid ▸ hmem) (hrunning.calm haborted)
        · cases hmem
      · cases state <;> trivial
      · intro run' hrun' _
        cases hrun'
        refine { admits := hadmits,
                 before := ⟨run, hrun, hlive, rfl, rfl, fun hne => absurd hid.symm hne, fun h => h⟩,
                 aborted := fun _ hab => ?_, state := fun _ _ => .inl hholds,
                 calm := fun _ _ hmem => by cases hmem }
        rw [show run.aborted = true from hab] at haborted
        cases haborted

theorem Inv.publish (h : Inv s) (hrun : s.active = some run) (hlive : run.place.live = true)
    (haborted : run.aborted = false) {set : ExportJob → ExportJob}
    (hset : ∀ row, (set row).id = row.id ∧ (set row).kind = row.kind)
    (hbefore : ∀ row ∈ s.jobs, row.id = run.id → if row.kind = .archive then row.state = .verifying
      else row.state = .validating ∨ row.state = .failed ∧ .interrupted row.id ∈ s.log) :
    Inv (s.publish run set) := by
  unfold Service.publish
  cases hget : s.get run.id with
  | none =>
      rw [write_none hget]
      exact h.quiet (.left rfl)
  | some job =>
      obtain ⟨hjob, hid⟩ := (get_eq_some h.keys).mp hget
      have hrunning := h.running run hrun hlive
      have hwrite := @write_of_get s run.id job .ready set hget
      have hwrites : Writes s ((s.write run.id .ready set).setPlace run .settled) job .ready [] :=
        writes_of h.keys hget rfl hset (by simp [Service.setPlace]) (by rw [hwrite]; rfl)
          (by rw [hwrite]; rfl) (.inl rfl)
      have hunaborted : s.abortedRun job.id = false := by
        unfold Service.abortedRun
        rw [hrun, Option.any_some, haborted, Bool.and_false]
      refine h.writes hwrites ?_ (fun hact => by cases hact) ⟨hunaborted, hbefore job hjob hid⟩ ?_
      · rintro (hmem | hmem)
        · exact absurd (hid ▸ hmem) (hrunning.calm haborted)
        · cases hmem
      · intro run' hrun' hrunLive
        cases hrun'
        cases hrunLive

theorem Inv.startRun (h : Inv s) (hjob : job ∈ s.jobs) (hqueued : job.state = .queued) :
    Inv (s.startRun job configured cleaner) := by
  unfold Service.startRun
  cases configured with
  | none => exact h.failRun
  | some config =>
      refine { keys := h.keys, inert := h.inert, stale := h.stale, order := h.order,
               published := h.published, running := ?_ }
      intro run' hrun' _
      cases hrun'
      have hsame : ∀ row ∈ s.jobs, row.id = job.id → row = job := fun row hrow hid =>
        List.inj_on_of_nodup_map h.keys hrow hjob hid
      refine { admits := rfl, kind := fun row hrow hid => by rw [hsame row hrow hid],
               aborted := (fun hab => by cases hab),
               state := fun _ row hrow hid => .inl ?_, calm := fun _ hmem => ?_,
               fresh := fun copy hcopy hid hready => ?_ }
      · rw [hsame row hrow hid, hqueued]
        rfl
      · have hinert := h.inert job.id hmem job hjob rfl
        rw [hqueued] at hinert
        cases hinert
      · have hidle := h.stale copy hcopy hready job hjob (show job.id = copy.id from hid.symm)
        rw [hqueued] at hidle
        cases hidle

theorem Place.holds_active (h : place.holds state = true) :
    activeExport state = true := by
  cases place <;> first | exact h | (rw [beq_iff_eq.mp h]; rfl)

theorem Kind.admits_of_ne {kind : Kind} (hinventory : kind ≠ .inventory) :
    Place.preflighting.admits kind = true ∧ (kind ≠ .preflight →
      Place.modeChecking.admits kind = true) := by
  cases kind with
  | archive => exact ⟨rfl, fun _ => rfl⟩
  | preflight => exact ⟨rfl, fun h => absurd rfl h⟩
  | inventory => exact absurd rfl hinventory

theorem Place.eq_validating (h : place = .inventorying ∨ place = .preflighting)
    (hholds : place.holds state = true) : state = .validating := by
  rcases h with rfl | rfl <;> exact beq_iff_eq.mp hholds

/-- A run that is not of an archive publishes the row that it has validated. -/
theorem Inv.publishValidated (h : Inv s) (hrun : s.active = some run) (hlive : run.place.live = true)
    (hcalm : run.aborted = false)
    (hholds : ∀ state, run.place.holds state = true → state = .validating)
    (hkind : run.kind ≠ .archive) {set : ExportJob → ExportJob}
    (hset : ∀ row, (set row).id = row.id ∧ (set row).kind = row.kind) : Inv (s.publish run set) := by
  have hrunning := h.running run hrun hlive
  refine h.publish hrun hlive hcalm hset fun row hrow hid => ?_
  rw [if_neg (by rw [hrunning.kind row hrow hid]; exact hkind), hid]
  exact (hrunning.state hcalm row hrow hid).imp_left (hholds _)

theorem not_or_eq_false {a b : Bool} (h : ¬(a || b) = true) : a = false ∧ b = false := by
  simpa using h

/-- The run goes on among the places of an archive. -/
theorem Inv.archival (h : Inv s) (hrun : s.active = some run) (hlive : run.place.live = true)
    (hadmits : run.place.admits run.kind = true → place.admits run.kind = true)
    (hholds : ∀ state, activeExport state = true → place.holds state = true) :
    Inv (s.setPlace { run with stage := stage } place) :=
  h.quiet (.setPlace hrun hlive hadmits fun state hstate =>
    hholds state (Place.holds_active hstate))

theorem isolating_inv (h : Inv s) (hrun : s.active = some run) (hplace : run.place = .isolating)
    (hcalm : run.aborted = false) {shared : Bool} :
    Inv (if shared || run.kind == .inventory then
      (s.write run.id .validating fun row => row).setPlace run .inventorying
      else (s.write run.id .validating fun row => row).beforePreflight run) := by
  have hadvance : ∀ place : Place, place.holds .validating = true → place.admits run.kind = true →
      Inv ((s.write run.id .validating fun row => row).setPlace run place) :=
        fun place hholds hadmits =>
          h.advance hrun (by rw [hplace]; rfl) hcalm (fun _ => ⟨rfl, rfl⟩) rfl hadmits hholds
  split
  · exact hadvance .inventorying rfl rfl
  · next hother =>
      obtain ⟨-, hkind⟩ := not_or_eq_false hother
      obtain ⟨hpreflighting, hmode⟩ := Kind.admits_of_ne (beq_eq_false_iff_ne.mp hkind)
      unfold Service.beforePreflight
      split
      · next hchecked =>
          exact hadvance .modeChecking rfl
            (hmode (bne_iff_ne.mp (Bool.and_eq_true_iff.mp hchecked).1))
      · exact hadvance .preflighting rfl hpreflighting

theorem returned_inv (h : Inv s) (hrun : s.active = some run) {late cleaner : Bool} :
    Inv (s.returned run late cleaner) := by
  unfold Service.returned
  cases hplace : run.place with
  | isolating =>
      dsimp only
      split
      · exact h.failRun
      · next hcalm => exact isolating_inv h hrun hplace (not_or_eq_false hcalm).1
  | inventorying =>
      have hlive : run.place.live = true := by rw [hplace]; rfl
      -- Up to this place the row is `validating`; only the write that publishes moves it.
      have hholds : ∀ state, run.place.holds state = true → state = .validating :=
        fun _ => Place.eq_validating (.inl hplace)
      dsimp only
      split
      · next hkind =>
          obtain ⟨hpreflighting, hmode⟩ := Kind.admits_of_ne (bne_iff_ne.mp hkind)
          unfold Service.beforePreflight
          split
          · next hchecked =>
              refine h.quiet (.setPlace hrun hlive (fun _ => ?_) fun state hstate => by
                rw [hholds state hstate]; rfl)
              exact hmode (bne_iff_ne.mp (Bool.and_eq_true_iff.mp hchecked).1)
          · exact h.quiet (.setPlace hrun hlive (fun _ => hpreflighting) fun state hstate => by
              rw [hholds state hstate]; rfl)
      · next hkind =>
          simp only [bne_iff_ne, ne_eq, not_not] at hkind
          split
          · exact h.failRun
          · next hcalm =>
              exact h.publishValidated hrun hlive (not_or_eq_false hcalm).1 hholds
                (by rw [hkind]; exact nofun) fun _ => ⟨rfl, rfl⟩
  | modeChecking =>
      refine h.quiet (.setPlace hrun (by rw [hplace]; rfl)
        (fun hadmits => ?_) fun state hstate => by rw [hplace] at hstate; exact hstate)
      rw [hplace] at hadmits
      rw [beq_iff_eq.mp hadmits]
      rfl
  | preflighting =>
      have hlive : run.place.live = true := by rw [hplace]; rfl
      have hholds : ∀ state, run.place.holds state = true → state = .validating :=
        fun _ => Place.eq_validating (.inr hplace)
      dsimp only
      split
      · next hkind =>
          refine h.quiet (.setPlace hrun hlive (fun hadmits => ?_) fun state hstate => by
            rw [hholds state hstate]; rfl)
          rw [hplace] at hadmits
          -- Only an archive goes on from here, and an inventory never comes to this place.
          cases hrunKind : run.kind with
          | archive => rfl
          | preflight => simp [hrunKind] at hkind
          | inventory =>
              rw [hrunKind] at hadmits
              cases hadmits
      · next hkind =>
          simp only [bne_iff_ne, ne_eq, not_not] at hkind
          split
          · exact h.failRun
          · next hcalm =>
              exact h.publishValidated hrun hlive (not_or_eq_false hcalm).1 hholds
                (by rw [hkind]; exact nofun) fun _ => ⟨rfl, rfl⟩
  | archive =>
      dsimp only
      split
      · exact h.failRun
      · exact h.archival hrun (by rw [hplace]; rfl)
          (fun hadmits => by rw [hplace] at hadmits; exact hadmits) fun _ hact => hact
  | callbackIsolating =>
      dsimp only
      split
      · exact h.archival hrun (by rw [hplace]; rfl)
          (fun hadmits => by rw [hplace] at hadmits; exact hadmits) fun _ hact => hact
      · exact h.archival hrun (by rw [hplace]; rfl)
          (fun hadmits => by rw [hplace] at hadmits; exact hadmits) fun _ hact => hact
  | binding =>
      have hlive : run.place.live = true := by rw [hplace]; rfl
      have hrunning := h.running run hrun hlive
      have hadmits := hrunning.admits
      rw [hplace] at hadmits
      dsimp only
      split
      · exact h.failRun
      · next hcalm =>
          split
          · exact h.failRun
          · next hverifying =>
              simp only [Option.all_eq_true, bne_iff_ne, ne_eq, not_forall, not_not] at hverifying
              obtain ⟨job, hget, hstate⟩ := hverifying
              obtain ⟨hjob, hid⟩ := (get_eq_some h.keys).mp hget
              refine h.publish hrun hlive (not_or_eq_false hcalm).1
                (fun _ => ⟨rfl, rfl⟩) fun row hrow hrowId => ?_
              -- The ids are distinct, so the row that `get` finds is the row of the run.
              rw [if_pos ((hrunning.kind row hrow hrowId).trans (beq_iff_eq.mp hadmits)),
                List.inj_on_of_nodup_map h.keys hrow hjob (hrowId.trans hid.symm)]
              exact hstate
  | cleaning => exact h.quiet (.left rfl)
  | settled =>
      exact h.quiet { jobs := rfl, log := rfl, active := (fun _ hrun' => by cases hrun'),
                      copies := fun _ hcopy => .inl hcopy }
  -- In every other place the archive goes on and no job is written.
  | _ =>
      exact h.archival hrun (by rw [hplace]; rfl)
        (fun hadmits => by rw [hplace] at hadmits; exact hadmits) fun _ hact => hact

theorem threw_inv (h : Inv s) (hrun : s.active = some run) (hlive : run.place.live = true)
    {late cleaner : Bool} : Inv (s.threw run failure late cleaner) := by
  unfold Service.threw
  split
  · next hcallback =>
      refine h.archival hrun hlive (fun hadmits => ?_) fun _ hact => hact
      cases hplace : run.place <;> rw [hplace] at hcallback hadmits <;>
        first | exact hadmits | cases hcallback
  · exact h.failRun

theorem callback_inv (h : Inv s) (hrun : s.active = some run) {late refused : Bool} :
    Inv (s.callback run late refused) := by
  unfold Service.callback
  split
  · exact h
  · next hcalled =>
      obtain ⟨hcalled, -⟩ := not_or_eq_false hcalled
      obtain ⟨hcalled, -⟩ := Bool.or_eq_false_iff.mp hcalled
      obtain ⟨hplace, hcalm⟩ := Bool.or_eq_false_iff.mp hcalled
      have hplace := bne_eq_false_iff_eq.mp hplace
      have hlive : run.place.live = true := by rw [hplace]; rfl
      have hadmits := (h.running run hrun hlive).admits
      rw [hplace] at hadmits
      exact h.advance hrun hlive hcalm (fun _ => ⟨rfl, rfl⟩) rfl hadmits rfl

theorem progress_inv (h : Inv s) (hrun : s.active = some run) {state : Option ExportState}
    {publication : Option Publication} : Inv (s.progress run state publication) := by
  unfold Service.progress
  split
  · exact h
  · next hreported =>
      obtain ⟨hplace, hstate⟩ := not_or_eq_false hreported
      have hplace := bne_eq_false_iff_eq.mp hplace
      have hlive : run.place.live = true := by rw [hplace]; rfl
      have hrunning := h.running run hrun hlive
      have hadmits := hrunning.admits
      rw [hplace] at hadmits
      have hadvance : ∀ (state : ExportState) (set : ExportJob → ExportJob),
          activeExport state = true →
          (∀ row, (set row).id = row.id ∧ (set row).kind = row.kind) →
          Inv ((s.write run.id state set).setPlace run .uploading) := by
        intro state set hact hset
        cases haborted : run.aborted with
        | false => exact h.advance hrun hlive haborted hset hact hadmits hact
        | true =>
            -- the row of an aborted run is cancelled, so there is none
            cases hget : s.get run.id with
            | none =>
                rw [write_none hget]
                exact h.unbound hrun hlive hadmits hget
            | some job =>
                obtain ⟨hjob, hid⟩ := (get_eq_some h.keys).mp hget
                rw [hget, Option.any_some, hrunning.aborted haborted job hjob hid] at hstate
                cases hstate
      dsimp only
      split
      · exact hadvance .uploading _ rfl fun _ => ⟨rfl, rfl⟩
      · exact hadvance .verifying _ rfl fun _ => ⟨rfl, rfl⟩
      · refine h.quiet (Same.quiet ?_)
        exact amend_same fun _ => rfl

theorem resumeRun_inv (h : Inv s) {answer : RunAnswer} :
    Inv (s.resumeRun answer cleaner) := by
  unfold Service.resumeRun
  split
  · exact h
  · next run hrun =>
      cases answer with
      | returned late => exact returned_inv h hrun
      | callback late refused => exact callback_inv h hrun
      | progress state publication => exact progress_inv h hrun
      | threw failure late =>
          dsimp only
          split
          · next hlive => exact threw_inv h hrun hlive
          · exact h

/-! ## The sweep -/

theorem Quiet.setSweeping {rows : Option (List ExportJob)}
    (hrows : ∀ rest, rows = some rest → ∀ copy ∈ rest, Copied s copy ∨ copy ∈ s.jobs) :
    Quiet s (s.setSweeping rows) where
  jobs := rfl
  log := rfl
  active run' hrun' hlive := ⟨run', hrun', hlive, rfl, rfl, rfl, fun h => h, fun _ h => h⟩
  copies copy hcopy := by
    rcases hcopy with hrequest | ⟨rest, hrest, hmem⟩
    · exact .inl (.inl hrequest)
    · exact hrows rest hrest copy hmem

theorem sweepEnd_inv (h : Inv (s.setSweeping none)) :
    Inv (s.sweepEnd configured cleaner) := by
  unfold Service.sweepEnd
  dsimp only
  split
  · exact h
  · split
    · exact h
    · next next hnext =>
        have hqueued := List.find?_some hnext
        exact h.startRun (List.mem_of_find?_eq_some hnext) (beq_iff_eq.mp hqueued)

theorem write_setSweeping {set : ExportJob → ExportJob} {rows : Option (List ExportJob)} :
    (s.setSweeping rows).write id state set = (s.write id state set).setSweeping rows := by
  unfold Service.write
  have hget : (s.setSweeping rows).get id = s.get id := rfl
  rw [hget]
  cases s.get id with
  | none => rfl
  | some job => rfl

theorem swept_inv {original : ExportJob} {rows : List ExportJob} (hmem : original ∈ rows)
    (h : Inv (s.setSweeping (some rows))) : Inv ((s.swept original).1.setSweeping (some rows)) := by
  unfold Service.swept
  split
  · next hover =>
      dsimp only
      rw [← write_setSweeping]
      exact h.expire (.inr ⟨rows, rfl, hmem⟩)
        (beq_iff_eq.mp (Bool.and_eq_true_iff.mp hover).1) fun _ => ⟨rfl, rfl⟩
  · exact h

/-- The rows that a sweep still has to visit are held by it. -/
theorem sweep_inv (rows : List ExportJob) (h : Inv (s.setSweeping (some rows))) :
    Inv (Service.sweep configured cleaner rows s) := by
  induction rows generalizing s with
  | nil => exact sweepEnd_inv (h.quiet (.setSweeping fun _ hrest => by cases hrest))
  | cons original rest ih =>
      have hswept := swept_inv List.mem_cons_self h
      have hrest : Inv ((s.swept original).1.setSweeping (some rest)) := by
        refine hswept.quiet (.setSweeping fun _ hheld copy hcopy => .inl ?_)
        cases hheld
        exact .inr ⟨_, rfl, List.mem_cons_of_mem _ hcopy⟩
      unfold Service.sweep
      dsimp only
      split
      · have hclean : Same (s.swept original).1
            ((s.swept original).1.cleanup (s.swept original).2 false cleaner) :=
          cleanup_same
        exact hrest.quiet (Same.quiet ⟨hclean.jobs, hclean.log, hclean.active,
          hclean.requests, rfl⟩)
      · exact ih hrest

/-! ## Requests -/

theorem stillReady_inv (h : Inv s) (hready : s.stillReady job = true) :
    Inv (s.authorize job.id) := by
  simp only [Service.stillReady, Option.any_eq_true, Bool.and_eq_true, beq_iff_eq] at hready
  obtain ⟨row, hget, ⟨⟨hstate, -⟩, -⟩, -⟩ := hready
  obtain ⟨hrow, hid⟩ := (get_eq_some h.keys).mp hget
  rw [← hid]
  exact h.authorize hrow hstate

theorem isReady_inv (h : Inv s) : Inv (if s.isReady id then s.authorize id else s) := by
  split
  · next hready =>
      obtain ⟨row, hrow, rfl, hstate⟩ := (isReady_iff h.keys).mp hready
      exact h.authorize hrow hstate
  · exact h

/-- The service after one resumption of a request that is in flight. -/
theorem resume_inv (h : Inv s) (hrequest : request ∈ s.requests) {reply : Reply} :
    Inv (s.resume request reply).1 := by
  unfold Service.resume
  split
  · split
    · exact h.cancelJob
    · exact h
  · exact h.cancelJob
  · next job digest =>
      split
      · next hover =>
          have hready := (Bool.and_eq_true_iff.mp (Bool.and_eq_true_iff.mp hover).1).2
          exact h.expire (.inl hrequest) (beq_iff_eq.mp hready) fun _ => ⟨rfl, rfl⟩
      · exact h
  · split
    · exact h
    · exact h
  · exact h
  · exact h
  · split
    · next hready => exact stillReady_inv h hready
    · exact h
  · exact h
  · exact h
  · exact h.failReady
  · exact h.failReady
  · exact h.failReady
  · exact h
  · split
    · exact h
    · split
      · exact h
      · exact isReady_inv h
  · exact h
  · exact isReady_inv h
  · exact h
  · exact h

/-- A request that goes on holds no row for a status that it did not hold. -/
theorem resume_status {reply : Reply} (h : (s.resume request reply).2 = .statusOwned copy) :
    request = .statusOwned copy := by
  unfold Service.resume at h
  repeat' split at h
  all_goals first | exact h | cases h

theorem write_requests {set : ExportJob → ExportJob} :
    (s.write id state set).requests = s.requests := by
  unfold Service.write
  split
  · rfl
  · rfl

theorem cancelJob_requests {clean : ExportJob → Bool} :
    (s.cancelJob id clean).requests = s.requests := by
  unfold Service.cancelJob
  split
  · rfl
  · dsimp only
    split
    · exact write_requests
    · split
      · exact write_requests
      · exact write_requests

theorem failReady_requests {failure : ReadyFailure} :
    (s.failReady job failure).requests = s.requests := by
  unfold Service.failReady
  split
  · exact write_requests
  · rfl

theorem resume_requests {reply : Reply} :
    (s.resume request reply).1.requests = s.requests := by
  unfold Service.resume
  repeat' split
  all_goals first | rfl | exact cancelJob_requests | exact write_requests | exact failReady_requests

/-! ## Runs -/

theorem interrupts_inv (rows : List ExportJob) (hkeys : (rows.map fun job => job.id).Nodup)
    (h : Inv s) (hrows : ∀ row ∈ rows, row ∈ s.jobs) : Inv (rows.foldl Service.interrupt s) := by
  induction rows generalizing s with
  | nil => exact h
  | cons job rows ih =>
      rw [List.map_cons, List.nodup_cons] at hkeys
      have hjob := hrows job List.mem_cons_self
      refine ih hkeys.2 (h.interrupt hjob) fun row hrow => ?_
      -- the rows that are still to be visited have other ids
      have hne : row.id ≠ job.id := fun heq => hkeys.1 (heq ▸ List.mem_map_of_mem hrow)
      have hold := hrows row (List.mem_cons_of_mem _ hrow)
      unfold Service.interrupt
      split
      · change row ∈ (s.write job.id .failed (ExportJob.failWith "interrupted")).jobs
        rw [write_of_get ((get_eq_some h.keys).mpr ⟨hjob, rfl⟩)]
        refine Table.mem_update.mpr ⟨row, hold, if_neg fun heq => hne (beq_iff_eq.mp heq)⟩
      · exact hold

theorem call_status {call : Call} (h : s.call call = some (.statusOwned copy)) :
    copy ∈ s.jobs := by
  cases call with
  | cancel owner backupId id =>
      obtain ⟨_, _, heq⟩ := Option.map_eq_some_iff.mp h
      cases heq
  | cancelPreflight owner id =>
      obtain ⟨_, _, heq⟩ := Option.map_eq_some_iff.mp h
      cases heq
  | ready purpose owner backupId id =>
      obtain ⟨_, _, heq⟩ := Option.map_eq_some_iff.mp h
      cases heq
  | status owner backupId id =>
      obtain ⟨job, howned, heq⟩ := Option.map_eq_some_iff.mp h
      cases heq
      unfold Service.owned at howned
      split at howned
      · exact List.mem_of_find?_eq_some (Option.filter_eq_some_iff.mp howned).1
      · cases howned

theorem Inv.step (h : Inv s) (label : Label) : Inv (step s label) := by
  cases label with
  | pass ms => exact h.quiet (Same.quiet ⟨rfl, rfl, rfl, rfl, rfl⟩)
  | call call =>
      refine h.quiet { jobs := rfl, log := rfl, active := ?_, copies := ?_ }
      · exact fun run' hrun' hlive => ⟨run', hrun', hlive, rfl, rfl, rfl, fun h => h, fun _ h => h⟩
      -- The copy of a new request is one that the call has just read.
      · rintro copy (hrequest | hswept)
        · rcases List.mem_append.mp hrequest with hold | hnew
          · exact .inl (.inl hold)
          · exact .inr (call_status (Option.mem_toList.mp hnew))
        · exact .inl (.inr hswept)
  | reply i reply =>
      dsimp only [Pluton.Export.step]
      split
      · exact h
      · next request hrequest =>
          have hmem : request ∈ s.requests := List.mem_of_getElem? hrequest
          -- A request that goes on with a copy has the copy it had before.
          refine (resume_inv h hmem).quiet { jobs := rfl, log := rfl, active := ?_, copies := ?_ }
          · exact fun run' hrun' hlive =>
              ⟨run', hrun', hlive, rfl, rfl, rfl, fun h => h, fun _ h => h⟩
          · rintro copy (hcopy | hswept)
            · refine .inl (.inl ?_)
              rw [resume_requests]
              rcases List.mem_or_eq_of_mem_set hcopy with hold | hnew
              · exact hold
              · exact resume_status hnew.symm ▸ hmem
            · exact .inl (.inr hswept)
  | tick configured cleaner =>
      dsimp only [Pluton.Export.step]
      split
      · exact h
      -- A sweep starts from the rows of this moment, so its copies are rows of the table.
      · refine sweep_inv s.jobs (h.quiet (.setSweeping fun rest hrest copy hcopy => .inr ?_))
        cases hrest
        exact hcopy
  | sweep configured cleaner =>
      dsimp only [Pluton.Export.step]
      split
      · exact h
      · next rest hrest =>
          refine sweep_inv rest (h.quiet (.setSweeping fun rest' hrest' copy hcopy =>
            .inl (.inr ⟨rest, hrest, ?_⟩)))
          cases hrest'
          exact hcopy
  | immediate i cleaner =>
      dsimp only [Pluton.Export.step]
      split
      · exact h
      · have hscheduled : Inv { s with immediates := s.immediates.eraseIdx i } :=
          h.quiet (Same.quiet ⟨rfl, rfl, rfl, rfl, rfl⟩)
        exact hscheduled.quiet cleanup_same.quiet
  | run answer cleaner => exact resumeRun_inv h
  | cleanup id returned => exact h.quiet resumeCleanup_same.quiet
  | recoverInterrupted => exact interrupts_inv s.jobs h.keys h fun _ hrow => hrow

/-- The service after a run. -/
def Service.after (s : Service) (labels : List Label) : Service := labels.foldl Pluton.Export.step s

theorem Inv.start (journal : Journal) (now : Nat) : Inv (Service.start journal now) where
  keys := journal.keys
  inert _ h := by cases h
  running _ h := by cases h
  stale _ h := by
    rcases h with h | ⟨_, h, _⟩
    · cases h
    · cases h
  order := List.Pairwise.nil
  published _ h := by cases h

theorem Inv.after (h : Inv s) (labels : List Label) : Inv (s.after labels) := by
  induction labels generalizing s with
  | nil => exact h
  | cons label labels ih => exact ih (h.step label)

/-- In every run: after a job was cancelled, no state is written that is active or
ready, no download passes a check, and the job is given up; and a job becomes ready only
by a run that was not aborted, an archive from `verifying`, a preflight or an inventory
from `validating` or, where `recoverInterrupted` had marked it, from `failed`. -/
theorem cancellation_final (journal : Journal) (now : Nat) (labels : List Label) :
    (∀ before after id, ((Service.start journal now).after labels).log =
      before ++ .cancelled id :: after →
      ∀ event ∈ after, event.revives id = false) ∧
    (∀ id, .cancelled id ∈ ((Service.start journal now).after labels).log →
      ∀ row ∈ ((Service.start journal now).after labels).jobs, row.id = id →
        row.state.inert = true) ∧
    ∀ id kind before aborted,
      .wrote id kind before .ready aborted ∈ ((Service.start journal now).after labels).log →
      aborted = false ∧
        if kind = .archive then before = .verifying
        else before = .validating ∨ before = .failed ∧
        .interrupted id ∈ ((Service.start journal now).after labels).log := by
  have h := (Inv.start journal now).after labels
  refine ⟨fun before after id hlog event hevent => ?_, h.inert,
    fun id kind before aborted hmem => h.published _ hmem⟩
  have horder := h.order
  rw [hlog, List.pairwise_append, List.pairwise_cons] at horder
  exact horder.2.1.1 event hevent id rfl

namespace Interrupted

def journal : Journal where
  rows :=
    [⟨"a", .inventory, "owner", "backup", "digest", .queued, none, none, none, false, {}, false, 0⟩]
  keys := by decide

/-- A run up to its inventory, a recovery, and the rest of the run. -/
def labels : List Label :=
  [.tick (some ⟨false, 60⟩) true, .run (.returned false) true, .recoverInterrupted,
    .run (.returned false) true]

/-- The job becomes ready from `failed`. -/
theorem ready_from_failed :
    .wrote "a" .inventory .failed .ready false ∈ ((Service.start journal 0).after labels).log := by
  decide +kernel

end Interrupted

end Pluton.Export
