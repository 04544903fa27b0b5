-- SUMMARY: Which snapshots a plan lists in the end, and the two completions that lose one.
import Pluton.RemoteBackup.PlanStats

/-!
# Completed snapshots stay with the plan

A run that has recorded its backup owes the plan a snapshot until it has written the
statistics. The invariant is that a backup recorded as completed is either listed by its
plan or still owed by a run. Writing the statistics keeps what the plan lists only when the
run read all of it.
-/
namespace Pluton.RemoteBackup.PlanStats

open Await
open Agent (AgentCommand)

/-- The backup is recorded as completed with this snapshot. -/
def CompletedAs (backup : BackupRow) (snapshotId : String) : Prop :=
  backup.status = some .completed ∧ backup.completionStats = some snapshotId

/-- A plan that exists lists the snapshot. -/
def Lists (d : Database) (planId snapshotId : String) : Prop :=
  (d.getPlan planId).isSome → snapshotId ∈ d.snapshots planId

/-- Nothing that the plan lists now is missing from the statistics that the run is about to
write: a run that wrote since the plan was read added no snapshot but this one. -/
def Loc.Current (d : Database) : Loc → Prop
  | .statsUpdate recording plan =>
      ∀ snapshotId ∈ d.snapshots plan.id, snapshotId ∈ plan.snapshots ∨
        snapshotId = recording.snapshotId
  | _ => True

instance (d : Database) (l : Loc) : Decidable (l.Current d) := by
  cases l <;> unfold Loc.Current <;> infer_instance

def StatsCurrent (_ : Unit) (s : State) : Label Call Unit → Prop
  | .resume i _ =>
      match s.tasks[i]? with
      | some ⟨_, .waiting l⟩ => l.Current s.shared
      | _ => True
  | _ => True

instance (g : Unit) (s : State) (label : Label Call Unit) : Decidable (StatsCurrent g s label) := by
  unfold StatsCurrent
  split
  · split <;> infer_instance
  · infer_instance

/-- The history of a run that keeps nothing. -/
def unobserved (_ : Unit) (_ : State) (_ : Label Call Unit) : Unit := ()

/-! ## Plans under updates -/

theorem getPlan_updatePlan (d : Database) (planId planId' : String) (stats : Stats) :
    (d.updatePlan planId fun row => { row with stats := some stats }).getPlan planId' =
      (d.getPlan planId').map fun row =>
        if row.id = planId then { row with stats := some stats } else row := by
  simp only [Database.updatePlan, Database.getPlan, Table.update, List.find?_map, decide_eq_true_eq]
  congr 2
  funext row
  simp only [Function.comp_apply]
  split <;> rfl

variable {d : Database} {start : Database} {l : Loc} {ph : Phase Loc Ret}

/-- What the plan lists after its statistics have been written. -/
theorem snapshots_updatePlan_self {planId : String} {stats : Stats}
    (h : (d.getPlan planId).isSome) :
    (d.updatePlan planId fun row => { row with stats := some stats }).snapshots planId =
      stats.snapshots := by
  obtain ⟨row, hrow⟩ := Option.isSome_iff_exists.mp h
  have hid : row.id = planId := by simpa [Database.getPlan] using List.find?_some hrow
  simp [Database.snapshots, getPlan_updatePlan, hrow, hid, PlanRow.snapshots]

theorem snapshots_updatePlan_of_ne {planId planId' : String} {stats : Stats}
    (hne : planId' ≠ planId) :
    (d.updatePlan planId fun row => { row with stats := some stats }).snapshots planId' =
      d.snapshots planId' := by
  rw [Database.snapshots, getPlan_updatePlan]
  cases hrow : d.getPlan planId' with
  | none => simp [Database.snapshots, hrow]
  | some row =>
      have hid : row.id = planId' := by simpa [Database.getPlan] using List.find?_some hrow
      simp [Database.snapshots, hrow, hid, hne]

theorem mem_addSnapshot {snapshots : List String} {snapshotId other : String} :
    other ∈ addSnapshot snapshots snapshotId ↔ other ∈ snapshots ∨ other = snapshotId := by
  simp [addSnapshot, List.mem_eraseDups]

/-! ## One statement -/

/-- What a waiting run of a command relies on: the command's reference, and a copy of the
command's plan. -/
def Loc.Of (d : Database) (reference : CommandReference) : Loc → Prop
  | .currentRead _ reference' _ => reference' = reference
  | .planRead reference' _ _ => reference' = reference
  | .completeFinalized recording | .completePlan recording | .completeUpdate recording
  | .warningsUpdate recording | .markInitialized recording =>
      recording.reference = reference ∧ recording.plan.isSome =
        (d.getPlan reference.planId).isSome ∧
        ∀ plan, recording.plan = some plan → plan.id = reference.planId
  | .statsUpdate recording plan => recording.reference = reference ∧ plan.id = reference.planId
  | _ => True

/-- A run that waits relies on what its statement needs. -/
def PhaseOf (d : Database) (reference : CommandReference) (ph : Phase Loc Ret) : Prop :=
  ∀ l, ph = .waiting l → l.Of d reference

/-- The snapshot that a run has still to write. -/
def Loc.owed : Loc → Option String
  | .warningsUpdate recording | .markInitialized recording | .statsUpdate recording _ =>
      some recording.snapshotId
  | _ => none

/-- The run has still to write the snapshot, or was lost in a crash. -/
def Owes (snapshotId : String) : Phase Loc Ret → Prop
  | .waiting l => l.owed = some snapshotId
  | .returned _ => False
  | .lost => True

/-- No plan is created or deleted. -/
def SamePlans (d d' : Database) : Prop :=
  ∀ planId, (d'.getPlan planId).isSome = (d.getPlan planId).isSome

/-- Every plan lists at least what it listed. -/
def Keeps (d d' : Database) : Prop :=
  ∀ ⦃planId snapshotId⦄, snapshotId ∈ d.snapshots planId → snapshotId ∈ d'.snapshots planId

/-- Where a backup completed in `d'` comes from: it was so in `d`, or it is the run's own
and the run now owes its snapshot. -/
def Explained (d d' : Database) (reference : CommandReference) (ph : Phase Loc Ret) : Prop :=
  ∀ backup ∈ d'.backups, ∀ ⦃snapshotId⦄, CompletedAs backup snapshotId →
    (∃ old ∈ d.backups, old.id = backup.id ∧ CompletedAs old snapshotId) ∨
      backup.id = reference.backupId ∧ Owes snapshotId ph

/-- What one statement of a run does. -/
structure Sound (d : Database) (reference : CommandReference) (l : Loc) (d' : Database)
    (ph : Phase Loc Ret) : Prop where
  samePlans : SamePlans d d'
  keeps : l.Current d → Keeps d d'
  local_ : PhaseOf d' reference ph
  owed : ∀ snapshotId, l.owed = some snapshotId →
    Owes snapshotId ph ∨ Lists d' reference.planId snapshotId
  explained : Explained d d' reference ph

variable {reference : CommandReference}

theorem PhaseOf.waiting (h : l.Of d reference) :
    PhaseOf d reference (.waiting l) := by
  intro l' heq
  injection heq with heq
  exact heq ▸ h

theorem PhaseOf.returned {r : Ret} :
    PhaseOf d reference (.returned r) := by
  intro l heq
  injection heq

theorem Explained.refl :
    Explained d d reference ph :=
  fun backup hbackup _ hcompleted => .inl ⟨backup, hbackup, rfl, hcompleted⟩

/-- A backup that an update has not completed is as before. -/
theorem Explained.updateBackup {backupId : String} {set : Backup → Backup}
    (hid : ∀ backup, (set backup).id = backup.id)
    (hset : ∀ backup, (set backup).status = some .completed → backup.status = some .completed) :
    Explained d (d.updateBackup backupId (·.lift set)) reference ph := by
  intro backup hbackup snapshotId hcompleted
  obtain ⟨old, hold, rfl⟩ := Table.mem_update.mp hbackup
  refine .inl ⟨old, hold, ?_⟩
  split
  · next hcond =>
    rw [if_pos hcond] at hcompleted
    exact ⟨(hid old.toBackup).symm, hset _ hcompleted.1, hcompleted.2⟩
  · next hcond =>
    rw [if_neg hcond] at hcompleted
    exact ⟨rfl, hcompleted⟩

theorem Sound.read (hlocal : PhaseOf d reference ph)
    (howed : ∀ snapshotId, l.owed = some snapshotId →
      Owes snapshotId ph ∨ Lists d reference.planId snapshotId) :
    Sound d reference l d ph where
  samePlans := fun _ => rfl
  keeps := fun _ _ _ h => h
  local_ := hlocal
  owed := howed
  explained := .refl

theorem Sound.read_of_unowed (hunowed : l.owed = none) (hlocal : PhaseOf d reference ph) :
    Sound d reference l d ph :=
  .read hlocal fun snapshotId h => by rw [hunowed] at h; cases h

/-- The last statement of a run that does not complete its backup. -/
theorem Sound.settle {r : Ret} {backupId : String} {set : Backup → Backup} (hunowed : l.owed = none)
    (hid : ∀ backup, (set backup).id = backup.id)
    (hset : ∀ backup, (set backup).status = some .completed → backup.status = some .completed) :
    Sound d reference l (d.updateBackup backupId (·.lift set)) (.returned r) where
  samePlans := fun _ => rfl
  keeps := fun _ _ _ h => h
  local_ := .returned
  owed := fun snapshotId h => by rw [hunowed] at h; cases h
  explained := .updateBackup hid hset

theorem settleCurrent_of (d : Database) (command : AgentCommand) (reference : CommandReference)
    (completion : RemoteCompletion) (current : Option Backup) :
    PhaseOf d reference (settleCurrent command reference completion current) := by
  unfold settleCurrent
  split
  · exact .returned
  · split
    · exact .waiting True.intro
    · split
      · exact .waiting True.intro
      · split
        · split
          · exact .waiting rfl
          · exact .waiting True.intro
        · exact .waiting True.intro

theorem checkArtifacts_of (d : Database) (reference : CommandReference)
    (completion : RemoteCompletion) (result : CompletionResult) :
    PhaseOf d reference (checkArtifacts reference completion result
      (d.getPlan reference.planId)) := by
  unfold checkArtifacts
  split
  · exact .waiting True.intro
  · exact .waiting ⟨rfl, rfl, fun plan hplan => by
      simpa [Database.getPlan] using List.find?_some hplan⟩

theorem Recording.afterComplete_owed (recording : Recording) :
    recording.afterComplete.owed = some recording.snapshotId := by
  unfold afterComplete
  split <;> rfl

theorem Recording.afterComplete_of
    {recording : Recording} (h : recording.reference = reference ∧
      recording.plan.isSome = (d.getPlan reference.planId).isSome ∧
      ∀ plan, recording.plan = some plan → plan.id = reference.planId) :
    recording.afterComplete.Of d reference := by
  unfold afterComplete
  split <;> exact h

theorem statement_sound (hof : l.Of d reference) :
    Sound d reference l (l.statement d).1 (l.statement d).2 := by
  cases l with
  | currentRead command reference' completion =>
      cases hof
      exact .read_of_unowed rfl (settleCurrent_of d _ _ _ _)
  | cancelledUpdate backupId =>
      exact .settle rfl (fun _ => rfl) fun _ h => by simp [cancelledSet] at h
  | failureFinalized backupId error sourceFailure =>
      simp only [Loc.statement]
      split
      · exact .read_of_unowed rfl .returned
      · exact .read_of_unowed rfl (.waiting True.intro)
  | failureCancelled backupId error sourceFailure =>
      simp only [Loc.statement]
      split
      · exact .read_of_unowed rfl .returned
      · split <;> exact .read_of_unowed rfl (.waiting True.intro)
  | failureCurrent backupId error => exact .read_of_unowed rfl (.waiting True.intro)
  | failureUpdate backupId error =>
      exact .settle rfl (fun _ => rfl) fun _ h => by simp [failureSet] at h
  | planRead reference' completion result =>
      cases hof
      exact .read_of_unowed rfl (checkArtifacts_of d _ _ _)
  | completeFinalized recording =>
      simp only [Loc.statement]
      split
      · exact .read_of_unowed rfl (.waiting (Recording.afterComplete_of hof))
      · exact .read_of_unowed rfl (.waiting hof)
  | completePlan recording => exact .read_of_unowed rfl (.waiting hof)
  | completeUpdate recording =>
      refine ⟨fun _ => rfl, fun _ _ _ h => h, .waiting (Recording.afterComplete_of hof), ?_, ?_⟩
      · intro snapshotId howed
        simp [Loc.owed] at howed
      · intro backup hbackup snapshotId hcompleted
        obtain ⟨old, hold, rfl⟩ := Table.mem_update.mp hbackup
        split at hcompleted
        · next hcond =>
          right
          have howed : recording.snapshotId = snapshotId := Option.some.inj hcompleted.2
          rw [if_pos hcond, ← hof.1]
          refine ⟨by simpa [recordComplete, BackupRow.lift, completeSet] using hcond, ?_⟩
          rw [← howed]
          exact recording.afterComplete_owed
        · next hcond =>
          left
          rw [if_neg hcond]
          exact ⟨old, hold, rfl, hcompleted⟩
  | warningsUpdate recording =>
      exact ⟨fun _ => rfl, fun _ _ _ h => h, .waiting hof, fun _ h => .inl h,
        .updateBackup (fun _ => rfl) fun _ h => h⟩
  | markInitialized recording =>
      simp only [Loc.statement]
      split
      · next plan hplan =>
        exact .read (.waiting ⟨hof.1, hof.2.2 plan hplan⟩) fun _ h => .inl h
      · next hplan =>
        -- The run read no plan, so there is none.
        refine .read .returned fun _ _ => .inr fun hsome => ?_
        rw [← hof.2.1, hplan] at hsome
        cases hsome
  | statsUpdate recording plan =>
      refine ⟨fun planId => ?_, fun hcurrent planId snapshotId hmem => ?_, .returned,
        fun snapshotId howed => ?_, ?_⟩
      · simp [Loc.statement, getPlan_updatePlan]
      · by_cases hplan : planId = plan.id
        · subst hplan
          have hsome : (d.getPlan plan.id).isSome := by
            cases hrow : d.getPlan plan.id with
            | none => simp [Database.snapshots, hrow] at hmem
            | some row => rfl
          simp only [Loc.statement]
          rw [snapshots_updatePlan_self hsome]
          exact mem_addSnapshot.mpr (hcurrent snapshotId hmem)
        · simp only [Loc.statement]
          rw [snapshots_updatePlan_of_ne hplan]
          exact hmem
      · right
        intro hsome
        have hsome' : (d.getPlan plan.id).isSome := by
          simpa [Loc.statement, getPlan_updatePlan, ← hof.2] using hsome
        simp only [Loc.statement, ← hof.2]
        rw [snapshots_updatePlan_self hsome']
        exact mem_addSnapshot.mpr (.inr (Option.some.inj howed).symm)
      · intro backup hbackup snapshotId hcompleted
        exact .inl ⟨backup, hbackup, rfl, hcompleted⟩

/-! ## Whole runs -/

/-- The command of a run refers to a backup and its plan. -/
def ReportsOn (call : Call) (reference : CommandReference) : Prop :=
  commandReference call.command.payload = some reference

/-- The backup is listed by the plan of a run that reports on it, or owed by that run. -/
def Accounted (s : State) (backup : BackupRow) (snapshotId : String) : Prop :=
  ∃ task ∈ s.tasks, ∃ reference, ReportsOn task.call reference ∧ reference.backupId = backup.id ∧
    (Owes snapshotId task.phase ∨ Lists s.shared reference.planId snapshotId)

structure Inv (start : Database) (s : State) : Prop where
  keeps : Keeps start s.shared
  local_ : ∀ task ∈ s.tasks, ∀ l, task.phase = .waiting l →
    ∃ reference, ReportsOn task.call reference ∧ l.Of s.shared reference
  completed : ∀ backup ∈ s.shared.backups, ∀ snapshotId, CompletedAs backup snapshotId →
    (∃ old ∈ start.backups, old.id = backup.id ∧ CompletedAs old snapshotId) ∨
    Accounted s backup snapshotId

theorem Lists.mono {d d' : Database} (hplans : SamePlans d d') (hkeeps : Keeps d d')
    {planId snapshotId : String} (h : Lists d planId snapshotId) : Lists d' planId snapshotId :=
  fun hsome => hkeeps (h (hplans planId ▸ hsome))

theorem Loc.Of.mono {d d' : Database} (hplans : SamePlans d d') (h : l.Of d reference) :
    l.Of d' reference := by
  cases l with
  | completeFinalized | completePlan | completeUpdate | warningsUpdate | markInitialized =>
      exact ⟨h.1, (hplans reference.planId).symm ▸ h.2.1, h.2.2⟩
  | _ => exact h

theorem enter_of {call : Call} (h : enter call = .waiting l) :
    ∃ reference, ReportsOn call reference ∧ l.Of d reference := by
  unfold enter at h
  split at h
  · injection h
  · split at h
    · next reference hreference =>
      injection h with h
      exact ⟨reference, hreference, h ▸ rfl⟩
    · injection h

theorem inv_atRest (d : Database) : Inv d (atRest d) where
  keeps := fun _ _ h => h
  local_ := fun _ htask => absurd htask List.not_mem_nil
  completed := fun backup hbackup _ hcompleted => .inl ⟨backup, hbackup, rfl, hcompleted⟩

/-- The database is left alone, and every run stays where it was or is lost. -/
theorem Inv.tasks {s s' : State} (h : Inv start s)
    (hshared : s'.shared = s.shared) (hlocal : ∀ task ∈ s'.tasks, ∀ l, task.phase = .waiting l →
      task ∈ s.tasks ∨ ∃ reference, ReportsOn task.call reference ∧ l.Of s.shared reference)
    (hmem : ∀ task ∈ s.tasks, ∃ task' ∈ s'.tasks, task'.call = task.call ∧
      ∀ snapshotId, Owes snapshotId task.phase → Owes snapshotId task'.phase) : Inv start s' where
  keeps := hshared ▸ h.keeps
  local_ := by
    intro task htask l hl
    rw [hshared]
    rcases hlocal task htask l hl with hold | hnew
    · exact h.local_ task hold l hl
    · exact hnew
  completed := by
    intro backup hbackup snapshotId hcompleted
    rw [hshared] at hbackup
    rcases h.completed backup hbackup snapshotId hcompleted with
      hold | ⟨task, htask, reference, hreports, hid, howes⟩
    · exact .inl hold
    · obtain ⟨task', htask', hcall, howes'⟩ := hmem task htask
      refine .inr ⟨task', htask', reference, hcall ▸ hreports, hid, ?_⟩
      rw [hshared]
      exact howes.imp (howes' snapshotId) id

theorem inv_crash {s : State} (h : Inv start s) :
    Inv start (service.step s .crash) := by
  refine h.tasks rfl ?_ ?_
  · intro task htask l hl
    obtain ⟨old, hold, rfl⟩ := List.mem_map.mp htask
    rcases old with ⟨call, l' | r | _⟩
    · cases hl
    · cases hl
    · cases hl
  · intro task htask
    refine ⟨task.crash, List.mem_map_of_mem htask, ?_, ?_⟩
    · rcases task with ⟨call, l | r | _⟩ <;> rfl
    · intro snapshotId howes
      rcases task with ⟨call, l | r | _⟩
      · exact True.intro
      · exact howes
      · exact howes

theorem inv_resume {s : State} {i : Nat} {call : Call} (h : Inv start s)
    (htask : s.tasks[i]? = some ⟨call, .waiting l⟩) (hcurrent : l.Current s.shared) :
    Inv start { s with
      shared := (l.statement s.shared).1
      tasks := s.tasks.set i ⟨call, (l.statement s.shared).2⟩ } := by
  have hlt := (List.getElem?_eq_some_iff.mp htask).1
  obtain ⟨reference, hreports, hof⟩ := h.local_ _ (List.mem_of_getElem? htask) l rfl
  have hsound := statement_sound hof
  have hkeeps := hsound.keeps hcurrent
  have hself : (⟨call, (l.statement s.shared).2⟩ : Task Call Loc Ret) ∈
      s.tasks.set i ⟨call, (l.statement s.shared).2⟩ := List.mem_set hlt _
  refine ⟨fun _ _ hmem => hkeeps (h.keeps hmem), ?_, ?_⟩
  · intro task hmem l' hl'
    rcases List.mem_or_eq_of_mem_set hmem with hold | rfl
    · obtain ⟨reference', hreports', hof'⟩ := h.local_ task hold l' hl'
      exact ⟨reference', hreports', hof'.mono hsound.samePlans⟩
    · exact ⟨reference, hreports, hsound.local_ l' hl'⟩
  · intro backup hbackup snapshotId hcompleted
    rcases hsound.explained backup hbackup hcompleted with
      ⟨old, hold, hid, hcompleted'⟩ | ⟨hid, howes⟩
    · rcases h.completed old hold snapshotId hcompleted' with
        ⟨first, hfirst, hid', hfirst'⟩ | ⟨task, hmem, reference', hreports', hid', howes⟩
      · exact .inl ⟨first, hfirst, hid'.trans hid, hfirst'⟩
      · right
        -- The run that accounts for the backup is the one resumed, or it stays where it was.
        obtain ⟨j, hj, hget⟩ := List.getElem_of_mem hmem
        by_cases hji : j = i
        · subst hji
          have hsame : task = ⟨call, .waiting l⟩ := by
            rw [List.getElem?_eq_getElem hj, hget] at htask
            exact Option.some.inj htask
          subst hsame
          have hreference : reference' = reference :=
            Option.some.inj (hreports'.symm.trans hreports)
          subst hreference
          refine ⟨_, hself, reference', hreports, hid'.trans hid, ?_⟩
          rcases howes with howes | hlists
          · exact hsound.owed snapshotId howes
          · exact .inr (hlists.mono hsound.samePlans hkeeps)
        · refine ⟨task, ?_, reference', hreports', hid'.trans hid, ?_⟩
          · exact List.mem_of_getElem? ((List.getElem?_set_ne (Ne.symm hji)).trans (hget ▸
              List.getElem?_eq_getElem hj))
          · exact howes.imp id fun hlists => hlists.mono hsound.samePlans hkeeps
    · exact .inr ⟨_, hself, reference, hreports, hid.symm, .inl howes⟩

theorem inv_step (g : Unit) (s : State) (label : Label Call Unit)
    (hcurrent : StatsCurrent g s label) (h : Inv start s) : Inv start (service.step s label) := by
  cases label with
  | tick d => exact h.tasks rfl (fun _ htask _ _ => .inl htask) fun task htask =>
      ⟨task, htask, rfl, fun _ => id⟩
  | call c =>
      refine h.tasks rfl ?_ ?_
      · intro task htask l hl
        rcases List.mem_append.mp htask with hold | hnew
        · exact .inl hold
        · cases List.mem_singleton.mp hnew
          exact .inr (enter_of hl)
      · exact fun task htask => ⟨task, List.mem_append_left _ htask, rfl, fun _ => id⟩
  | crash => exact inv_crash h
  | resume i e =>
      rcases Program.step_resume_cases service s i e with hidle | ⟨call, l, htask, hstep⟩
      · rw [hidle]
        exact h
      · rw [hstep]
        simp only [StatsCurrent, htask] at hcurrent
        exact inv_resume h htask hcurrent

/-- Each plan keeps the snapshots it listed, and once all runs have settled, each backup that
was completed on the way is listed by the plan of its command. -/
def SnapshotsKept (start : Database) (s : State) : Prop :=
  Keeps start s.shared ∧
    (Settled s → ∀ backup ∈ s.shared.backups, ∀ snapshotId, CompletedAs backup snapshotId →
      (∃ old ∈ start.backups, old.id = backup.id ∧ CompletedAs old snapshotId) ∨
      ∃ task ∈ s.tasks, ∃ reference, ReportsOn task.call reference ∧
        reference.backupId = backup.id ∧
        Lists s.shared reference.planId snapshotId)

theorem Inv.snapshotsKept {s : State} (h : Inv start s) :
    SnapshotsKept start s := by
  refine ⟨h.keeps, ?_⟩
  intro hsettled backup hbackup snapshotId hcompleted
  rcases h.completed backup hbackup snapshotId hcompleted with
    hold | ⟨task, htask, reference, hreports, hid, howes | hlists⟩
  · exact .inl hold
  · obtain ⟨r, hr⟩ := hsettled task htask
    rw [hr] at howes
    exact howes.elim
  · exact .inr ⟨task, htask, reference, hreports, hid, hlists⟩

/-- Snapshots are kept in every run in which statistics are written only when nothing that
the plan lists is missing from them. -/
theorem completed_snapshots_kept (start : Database) {ls : Labels}
    (hmeets : service.Meets unobserved StatsCurrent () (atRest start) ls) :
    SnapshotsKept start (service.run (atRest start) ls) := by
  have hinv : Inv start (service.run (atRest start) ls) :=
    hmeets.invariant inv_step (inv_atRest start)
  exact hinv.snapshotsKept

/-! ## A cancelled backup that completes beside a newer one -/

def firstSnapshot : String := "aaaaaaaaaaaaaaaaaaaaaaaaaaaaaaaaaaaaaaaaaaaaaaaaaaaaaaaaaaaaaaaa"
def secondSnapshot : String := "bbbbbbbbbbbbbbbbbbbbbbbbbbbbbbbbbbbbbbbbbbbbbbbbbbbbbbbbbbbbbbbb"

/-- The first backup was cancelled, the second is under way. -/
def cancelledAndNewer : Database where
  plans := [{ id := "plan", stats := some ⟨10, ["00000000"]⟩ }]
  backups :=
    [{ id := "first", planId := some "plan", sourceId := "device", status := some .cancelled,
       inProgress := false },
      { id := "second", planId := some "plan", sourceId := "device", status := some .started,
        inProgress := true }]

/-- A completion with a lifecycle report for one of the backups. -/
def lifecycleCompletion (backupId snapshotId : String) (state : Agent.AgentCommandState) :
    Call where
  command :=
    { id := "remote-backup-" ++ backupId, agentId := "agent", type := .backupFilesystem, state
      payload :=
        [("backupId", some backupId), ("planId", some "plan"),
          ("repositoryId", some "repository")] }
  completion :=
    { sequence := 1, leaseToken := "token", success := true
      result := some ⟨snapshotId, snapshotId, some {}⟩, totalBytesProcessed := 20 }

def firstCall : Label Call Unit := .call (lifecycleCompletion "first" firstSnapshot .cancelled)
def secondCall : Label Call Unit := .call (lifecycleCompletion "second" secondSnapshot .completed)

/-- One run after the other. -/
def oneAfterTheOther : Labels :=
  firstCall :: List.replicate 7 (.resume 0 ()) ++ secondCall :: List.replicate 7 (.resume 1 ())

theorem completed_snapshots_kept_oneAfterTheOther :
    SnapshotsKept cancelledAndNewer (service.run (atRest cancelledAndNewer) oneAfterTheOther) :=
  completed_snapshots_kept cancelledAndNewer (by decide +kernel)

/-- Both runs read the plan before either writes its statistics. -/
def bothReadFirst : Labels :=
  [firstCall, .resume 0 (), .resume 0 (), secondCall, .resume 1 (), .resume 1 ()] ++
    List.replicate 5 (.resume 0 ()) ++ List.replicate 5 (.resume 1 ())

/-- The plan forgets the snapshot of the cancelled backup. -/
theorem cancelled_snapshot_forgotten :
    ¬ SnapshotsKept cancelledAndNewer (service.run (atRest cancelledAndNewer) bothReadFirst) := by
  intro h
  have hsettled : ∀ task ∈ (service.run (atRest cancelledAndNewer) bothReadFirst).tasks,
      task.phase = .returned .done := by
    decide +kernel
  have hcompleted :
      ∃ backup ∈ (service.run (atRest cancelledAndNewer) bothReadFirst).shared.backups,
      backup.status = some .completed ∧ backup.completionStats = some firstSnapshot := by
    decide +kernel
  have hnew : ∀ old ∈ cancelledAndNewer.backups, ¬ (old.status = some .completed) := by
    decide +kernel
  have hplan : ∀ task ∈ (service.run (atRest cancelledAndNewer) bothReadFirst).tasks,
      (commandReference task.call.command.payload).map (·.planId) = some "plan" := by
    decide +kernel
  have hexists :
      ((service.run (atRest cancelledAndNewer) bothReadFirst).shared.getPlan "plan").isSome := by
    decide +kernel
  have hforgotten : firstSnapshot ∉
      (service.run (atRest cancelledAndNewer) bothReadFirst).shared.snapshots "plan" := by
    decide +kernel
  obtain ⟨backup, hbackup, hbackup'⟩ := hcompleted
  rcases h.2 (fun task htask => ⟨_, hsettled task htask⟩) backup hbackup firstSnapshot hbackup' with
    ⟨old, hold, -, hold', -⟩ | ⟨task, htask, reference, hreports, -, hlists⟩
  · exact hnew old hold hold'
  · have hid := hplan task htask
    rw [show commandReference task.call.command.payload = some reference from hreports] at hid
    rw [show reference.planId = "plan" from Option.some.inj hid] at hlists
    exact hforgotten (hlists hexists)

end Pluton.RemoteBackup.PlanStats
