-- SUMMARY: One database workload at a time, over all interleavings with the recovery tests.
import Pluton.DatabaseRestore.Dispatching
import Pluton.Run

/-!
# One database workload at a time

The dispatcher and the running operation take turns, so that the rows one of them has read
are not deleted under it. With that, no update that is made from a stale row starts an
operation or brings a deleted restore back.
-/
namespace Pluton.DatabaseRestore

open EStateM

namespace World

/-- The rows that the dispatcher relies on. -/
def dispatching (s : World) : List String :=
  match s.dispatch with
  | some (place, rows) => (Progress.waiting place rows).relied
  | none => []

/-- The row that the running operation relies on. -/
def carrying (s : World) : List String :=
  match s.running with
  | some work => work.relied
  | none => []

end World

/-- The invariant of the system. -/
structure Inv (p : Prop) (base : Db) (s : World) : Prop where
  turns : s.dispatch = none ∨ s.running = none
  distinct : s.dispatching.Nodup
  sound : Sound p base (s.dispatching ++ s.carrying) s.carrying s.db

variable {p : Prop} {base : Db} {s : World} {a : Answers}

namespace Inv

theorem rebase (h : Inv p base s) : Inv p s.db s := { h with sound := h.sound.rebase }

/-- Only the tables change, and they stay in order. -/
theorem withDb (h : Inv p base s) {db : Db}
    (hdb : ∀ {ids held}, Sound p base ids held s.db → Sound p base ids held db) :
    Inv p base { s with db } := { h with sound := hdb h.sound }

theorem dispatched (hidle : s.running = none) {x : Sync Progress}
    (h : wp x (Stands p base) (fun _ => Sound p base [] []) s.db) :
    Inv p base (s.dispatched (x s.db)) := by
  unfold wp at h
  unfold World.dispatched
  cases hx : x s.db with
  | error e db =>
      rw [hx] at h
      refine ⟨.inl rfl, List.nodup_nil, ?_⟩
      simpa [World.dispatching, World.carrying, hidle] using h
  | ok progress db =>
      rw [hx] at h
      obtain ⟨hnodup, hsound⟩ := h
      cases progress with
      | waiting place rows =>
          refine ⟨.inr hidle, hnodup, ?_⟩
          simpa [World.dispatching, World.carrying, hidle, Progress.started] using hsound
      | finished =>
          refine ⟨.inl rfl, List.nodup_nil, ?_⟩
          simpa [World.dispatching, World.carrying, hidle, Progress.relied,
            Progress.started] using hsound
      | claimed row =>
          refine ⟨.inl rfl, List.nodup_nil, ?_⟩
          have hcarrying : (if row.cancelRequested then Work.cleaning row
              else .preparing row).relied = [row.id] := by
            split <;> rfl
          simpa [World.dispatching, World.carrying, hcarrying, Progress.relied,
            Progress.started] using hsound

theorem resumeDispatch (h : Inv p base s)
    (hopen : p → ∀ place rows, s.dispatch = some (place, rows) → QueuesOpen a place s.db) :
    Inv p base (s.resumeDispatch a) := by
  unfold World.resumeDispatch
  split
  · next place rows hdispatch =>
    have hidle : s.running = none := h.turns.resolve_left (by rw [hdispatch]; nofun)
    have hdispatching : s.dispatching = (Progress.waiting place rows).relied := by
      simp [World.dispatching, hdispatch]
    have hsound := h.sound
    rw [World.carrying, hidle, List.append_nil, hdispatching] at hsound
    exact dispatched hidle (wp_resumeLoop (hdispatching ▸ h.distinct) hsound fun hp =>
      hopen hp place rows hdispatch)
  · exact h

theorem expireRunning (h : Inv p base s) (now : Nat) : Inv p base (s.expireRunning now) := by
  unfold World.expireRunning
  split
  · exact h
  · split
    · split
      · exact h.withDb fun hsound => hsound.requestDelete _
      · exact h
    · exact h

theorem pending (h : Inv p base s) (hidle : s.running = none) (hrest : s.dispatch = none)
    (retained : String → Bool) :
    (liveIds (s.db.pending retained)).Nodup ∧
    Sound p base (liveIds (s.db.pending retained)) [] s.db := by
  have hsound : Sound p base [] [] s.db := by
    simpa [World.dispatching, World.carrying, hidle, hrest] using h.sound
  have hmem : ∀ row ∈ s.db.pending retained, row ∈ s.db.restores := fun row hrow =>
    (List.mem_filter.mp (List.mem_mergeSort.mp (List.mem_of_mem_take hrow))).1
  have hnodup : ((s.db.pending retained).map (·.id)).Nodup := by
    have hsorted :=
      (List.mergeSort_perm (s.db.restores.filter fun row =>
        row.status != .deleted || retained row.id)
      fun row row' => row.createdAt ≤ row'.createdAt).map Restore.id
    refine (hsorted.nodup_iff.mpr ?_).sublist ((List.take_sublist 200 _).map Restore.id)
    exact hsound.keys.sublist (List.filter_sublist.map Restore.id)
  refine ⟨hnodup.sublist (List.filter_sublist.map Restore.id),
    { hsound with live := fun row hrow hlive => ?_ }⟩
  obtain ⟨row', hrow', hid⟩ := List.mem_map.mp hlive
  obtain ⟨hpending, hstatus⟩ := List.mem_filter.mp hrow'
  have hsame : row' = row := List.inj_on_of_nodup_map hsound.keys (hmem row' hpending) hrow hid
  exact hsame ▸ bne_iff_ne.mp hstatus

theorem tick (h : Inv p base s) : Inv p base (s.tick a) := by
  have hexpired := h.expireRunning a.now
  unfold World.tick
  dsimp only
  split
  · exact hexpired
  · next hfree =>
    simp only [not_or, Bool.not_eq_true, Option.isSome_eq_false_iff,
      Option.isNone_iff_eq_none] at hfree
    obtain ⟨hnodup, hsound⟩ := hexpired.pending hfree.1 hfree.2.2 a.retained
    exact dispatched hfree.1 (wp_loop hnodup hsound)

/-- The running operation is over, or goes on with the row it has. -/
theorem withRunning (hrest : s.dispatch = none) {db : Db} {running : Option Work}
    (hsound : Sound p base (running.elim [] Work.relied) (running.elim [] Work.relied) db) :
    Inv p base { s with db, running } := by
  refine ⟨.inl hrest, by simp [World.dispatching, hrest], ?_⟩
  cases running <;> simpa [World.dispatching, World.carrying, hrest] using hsound

theorem resumeRunning (h : Inv p s.db s) : Inv p s.db (s.resumeRunning a) := by
  cases hrunning : s.running with
  | none =>
      unfold World.resumeRunning
      rw [hrunning]
      exact h
  | some work =>
      have hrest : s.dispatch = none := h.turns.resolve_right (by simp [hrunning])
      have hsound : Sound p s.db work.relied work.relied s.db := by
        simpa [World.dispatching, World.carrying, hrest, hrunning] using h.sound
      by_cases howns : work.owns = true
      · have hrelied : work.relied = [work.id] := if_pos howns
        have hstretch := wp_work (a := a) howns (hrelied ▸ hsound)
        unfold wp at hstretch
        cases hresult : work.resume a s.db with
        | ok work' db =>
            have hstep : s.resumeRunning a = { s with db, running := some work' } := by
              unfold World.resumeRunning
              rw [hrunning]
              cases work <;> first | (dsimp only; rw [hresult]) | cases howns
            rw [hstep]
            rw [hresult] at hstretch
            exact withRunning hrest hstretch.2
        | error e db =>
            rw [hresult] at hstretch
            exact hstretch.elim
      · have hnone : Sound p s.db [] [] s.db := by simpa [Work.relied, howns] using hsound
        unfold World.resumeRunning
        rw [hrunning]
        cases work with
        | settled id => exact withRunning hrest hnone
        | inspecting id => exact withRunning hrest hnone
        | _ => exact absurd rfl howns

theorem inspect (h : Inv p base s) (id : String) : Inv p base (s.inspect id a) := by
  unfold World.inspect
  split
  · exact h
  · split
    · exact h
    · split
      · exact h
      · next hfree =>
        simp only [not_or, Bool.not_eq_true, Option.isSome_eq_false_iff,
          Option.isNone_iff_eq_none] at hfree
        have hsound : Sound p base [] [] s.db := by
          simpa [World.dispatching, World.carrying, hfree.1, hfree.2.1] using h.sound
        exact withRunning hfree.2.1 hsound

theorem shutdown (h : Inv p base s) : Inv p base s.shutdown := by
  unfold World.shutdown
  split
  · exact { h with }
  · split
    · exact { turns := h.turns, distinct := h.distinct, sound := h.sound.requestDelete _ }
    · exact { h with }

theorem create (h : Inv p base s) {row : Restore} (hname : row.id ≠ "") (admitted : Bool) :
    Inv p base { s with db := (createRestore a admitted row).after s.db } := by
  refine h.withDb fun {ids held} hsound => wp_iff_after.mp ?_
  have hcreate : wp (DatabaseRestore.create admitted (newRestore a row)) (fun _ =>
      Sound p base ids held)
      (fun _ => Sound p base ids held) s.db :=
    wp_create hsound admitted hname (by unfold newRestore; cases row.mode <;> rfl) rfl
  refine hcreate.bind fun _ db' h' => ?_
  split
  · exact (wp_bindApproval h' a.approval).mono (fun _ _ hbound => hbound.1) fun _ _ hE => hE
  · exact h'

end Inv

/-- The step queues no row whose deletion has been requested. -/
def World.Open (s : World) : Label → Prop
  | .resumeDispatch a => ∀ place rows, s.dispatch = some (place, rows) → QueuesOpen a place s.db
  | _ => True

theorem Inv.step (h : Inv p base s) {label : Label} (hopen : p → s.Open label) :
    Inv p s.db (s.step label) := by
  have h := h.rebase
  cases label with
  | create row admitted a =>
      unfold World.step
      dsimp only
      split
      · exact h
      · next hname => exact h.create hname admitted
  | delete id => exact h.withDb fun hsound => hsound.requestDelete id
  | inspect id a => exact h.inspect id
  | tick a => exact h.tick
  | resumeDispatch a => exact h.resumeDispatch hopen
  | resumeRunning a => exact h.resumeRunning
  | recoverInterrupted a => exact (h.withDb fun hsound => hsound.recoverInterrupted).tick
  | shutdown => exact h.shutdown
  | restart =>
      exact ⟨.inl rfl, List.nodup_nil, h.sound.mono (List.nil_subset _) (List.nil_subset _)⟩
  | enqueue bound row => exact h.withDb fun hsound => hsound.enqueue bound row
  | claimTest elsewhere pendingInternal =>
      exact h.withDb fun hsound => hsound.claimTest elsewhere pendingInternal
  | requestCancellation id => exact h.withDb fun hsound => hsound.requestCancellation id
  | interrupted => exact h.withDb fun hsound => hsound.interrupted
  | finishTest id status => exact h.withDb fun hsound => hsound.finishTest id status

theorem sound_empty : Sound p {} [] [] {} where
  keys := List.nodup_nil
  named _ hmem := absurd hmem List.not_mem_nil
  testKeys := List.nodup_nil
  exclusive := Nat.zero_le 1
  plans _ := Nat.zero_le 1
  retained := Nat.zero_le 8
  unleased _ hmem := absurd hmem List.not_mem_nil
  live _ hmem := absurd hmem List.not_mem_nil
  begun _ hmem := absurd hmem List.not_mem_nil
  present _ hmem := absurd hmem List.not_mem_nil
  deletable _ _ hmem := absurd hmem List.not_mem_nil
  since := .refl {}

theorem inv_empty : Inv p {} {} := ⟨.inl rfl, List.nodup_nil, sound_empty⟩

/-! ## The exclusion -/

/-- One operation at a time, one recovery test at a time for each plan, and a bounded number
of restores, of which the deleted ones hold no lease. -/
structure Exclusive (db : Db) : Prop where
  working : (db.tests.filter (·.status == .running)).length +
    (db.restores.filter (·.status.isWorking)).length ≤ 1
  plans : ∀ planId,
    (db.tests.filter fun row => row.planId == planId && row.status.isActive).length ≤ 1
  retained : (db.restores.filter (·.status != .deleted)).length ≤ 8
  unleased : ∀ row ∈ db.restores, row.status = .deleted →
    ∀ lease ∈ db.leases, lease.restoreId ≠ row.id

/-- A lease of a restore that had none is added to a row that is imported. -/
def LeasesImport (db db' : Db) : Prop :=
  ∀ lease ∈ db'.leases, (∀ old ∈ db.leases, old.restoreId ≠ lease.restoreId) →
    ∃ row ∈ db.restores, row.id = lease.restoreId ∧ row.status = .importing

def Db.statusOf (db : Db) (id : String) : Option Status := (db.get id).map (·.status)

/-- A row that is deleted stays so over a step. -/
theorem Inv.deleted_step (h : Inv p base s) {label : Label} (hopen : p → s.Open label) {id : String}
    (hdeleted : s.db.statusOf id = some .deleted) :
    (s.step label).db.statusOf id = some .deleted := by
  have hstep := h.step hopen
  obtain ⟨row, hget, hstatus⟩ := Option.map_eq_some_iff.mp hdeleted
  obtain ⟨hrow, hid⟩ := h.sound.get_eq_some.mp hget
  obtain ⟨row', hrow', hid', hstatus'⟩ := hstep.sound.since.kept row hrow hstatus
  exact Option.map_eq_some_iff.mpr ⟨row',
    hstep.sound.get_eq_some.mpr ⟨hrow', hid'.trans hid⟩, hstatus'⟩

theorem inv_run (labels : List Label) : ∃ base, Inv False base (labels.foldl World.step {}) := by
  have hrun : Run.Along World.step (fun _ _ => True) {} labels :=
    Run.along_of_forall fun _ _ _ => trivial
  have hkeep : ∀ s label, True → (∃ base, Inv False base s) →
      ∃ base, Inv False base (World.step s label) :=
    fun s _ _ ⟨_, h⟩ => ⟨s.db, h.step False.elim⟩
  exact hrun.invariant hkeep ⟨{}, inv_empty⟩

/-- Over all interleavings there is one database workload at a time, leases are added to rows
that are imported, and a deleted restore stays deleted. -/
theorem one_database_workload (labels : List Label) :
    Exclusive (labels.foldl World.step {}).db ∧
    (∀ label, LeasesImport (labels.foldl World.step {}).db
      ((labels.foldl World.step {}).step label).db) ∧
    ∀ id, (labels.foldl World.step {}).db.statusOf id = some .deleted →
      ∀ later : List Label,
        (later.foldl World.step (labels.foldl World.step {})).db.statusOf id = some .deleted := by
  obtain ⟨base, h⟩ := inv_run labels
  refine ⟨⟨h.sound.exclusive, h.sound.plans, h.sound.retained, h.sound.unleased⟩, fun label => ?_,
    fun id hdeleted later => ?_⟩
  · intro lease hlease hnew
    refine ((h.step False.elim).sound.since.leased lease hlease).resolve_left ?_
    rintro ⟨old, hold, hsame⟩
    exact hnew old hold hsame
  · have hrun : Run.Along World.step (fun _ _ => True) (labels.foldl World.step {}) later :=
      Run.along_of_forall fun _ _ _ => trivial
    have hkeep : ∀ s label, True → (∃ base, Inv False base s) ∧ s.db.statusOf id = some .deleted →
        (∃ base, Inv False base (World.step s label)) ∧
        (World.step s label).db.statusOf id = some .deleted :=
      fun s _ _ ⟨⟨_, hinv⟩, hstatus⟩ =>
        ⟨⟨s.db, hinv.step False.elim⟩, hinv.deleted_step False.elim hstatus⟩
    exact (hrun.invariant hkeep ⟨⟨base, h⟩, hdeleted⟩).2

end Pluton.DatabaseRestore
