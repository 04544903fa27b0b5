-- SUMMARY: When a timer calls its callback: its schedule is active and its hold was released.
import Pluton.Schedules.Reconciled

/-!
# Firing

Whether an active timer calls its callback depends on the hold alone, and only a release
takes a hold away: that of the reconciliation, or a later one.
-/
namespace Pluton.Schedules

open CronManager

variable {accepts : String → Option String → Bool} {answers : Answers} {m next : CronManager}
  {id type : String} {entry : ScheduleEntry} {event : Event} {events : List Event}

/-! ## Holds -/

theorem loadedHolds_removeSchedule : (m.removeSchedule id).1.loadedHolds = m.loadedHolds := by
  unfold removeSchedule
  split <;> rfl

theorem loadedHolds_removeSchedulesByType :
    (m.removeSchedulesByType id type).1.loadedHolds = m.loadedHolds := by
  simp only [removeSchedulesByType]
  split <;> rfl

theorem loadedHolds_perform {operation : Operation} {saves : Bool}
    (hcall : m.perform accepts operation = some (next, saves)) :
    next.loadedHolds = m.loadedHolds := by
  cases operation with
  | scheduleTask id expression options taskCallback type =>
      rcases scheduleTask_cases
        (hcall : m.scheduleTask accepts id expression options taskCallback type = _) with
        ⟨-, hresult⟩ | ⟨-, ⟨-, hresult⟩ | ⟨-, hresult⟩⟩
      · rw [(Prod.mk.inj (Option.some.inj hresult)).1]
      · cases hresult
      · rw [(Prod.mk.inj (Option.some.inj hresult)).1]
        rfl
  | updateSchedule id expression options taskCallback type =>
      simp only [perform, updateSchedule] at hcall
      split at hcall
      · obtain ⟨cron, -, hresult⟩ := Option.map_eq_some_iff.mp hcall
        rw [← (Prod.mk.inj hresult).1]
        rfl
      · rw [← (Prod.mk.inj (Option.some.inj hcall)).1]
  | removeSchedule id =>
      rw [← (Prod.mk.inj (Option.some.inj hcall)).1]
      exact loadedHolds_removeSchedule
  | removeSchedulesByType id type =>
      rw [← (Prod.mk.inj (Option.some.inj hcall)).1]
      exact loadedHolds_removeSchedulesByType
  | pauseSchedule id type | resumeSchedule id type =>
      simp only [perform, pauseSchedule, resumeSchedule, setActive] at hcall
      split at hcall
      · rw [← (Prod.mk.inj (Option.some.inj hcall)).1]
      · cases hcall

theorem held_activate {id' type' : String} :
    Held (m.activateLoadedSchedule id' type') id type ↔
    Held m id type ∧ (id, type) ≠ (id', type') := by
  have hreleased : ∀ released : CronManager,
      released.loadedHolds = m.loadedHolds.filter (· != (id', type')) →
      (Held released id type ↔ Held m id type ∧ (id, type) ≠ (id', type')) := by
    intro released heq
    unfold Held
    rw [heq, mem_released]
  simp only [activateLoadedSchedule]
  split
  · split
    · exact hreleased _ rfl
    · split
      · exact hreleased _ rfl
      · exact hreleased _ rfl
  · next hnot =>
      rw [iff_self_and]
      rintro hheld hkey
      exact hnot (List.contains_iff_mem.mpr (hkey ▸ hheld))

theorem held_apply : Held (apply accepts m event) id type ↔
    Held m id type ∧ event ≠ .activateLoadedSchedule id type := by
  cases event with
  | operation operation =>
      simp only [apply, ne_eq, reduceCtorEq, not_false_eq_true, and_true]
      cases hcall : m.perform accepts operation with
      | none => rfl
      | some result =>
          unfold Held
          rw [← loadedHolds_perform hcall]
          rfl
  | activateLoadedSchedule id' type' =>
      rw [show apply accepts m (.activateLoadedSchedule id' type') =
        m.activateLoadedSchedule id' type' from rfl, held_activate]
      refine and_congr_right fun _ => not_congr ?_
      rw [Prod.mk.injEq, Event.activateLoadedSchedule.injEq, eq_comm (a := id), eq_comm (a := type)]
  | registerCallbacks callbacks =>
      simp only [apply, registerCallbacks, ne_eq, reduceCtorEq, not_false_eq_true, and_true]
      split <;> rfl
  | dispatchStarted => simp [apply, Held]
  | dispatchEnded => simp [apply, Held]

theorem held_events : Held (events.foldl (apply accepts) m) id type ↔
    Held m id type ∧ .activateLoadedSchedule id type ∉ events := by
  induction events generalizing m with
  | nil => simp
  | cons event rest ih =>
      rw [List.foldl_cons, ih, held_apply, List.mem_cons, not_or, and_assoc]
      exact and_congr_right fun _ => and_congr_left fun _ => ne_comm

/-! ## Ticks -/

theorem fire_of_held (h : Held m id entry.type) : m.fire id entry = none := by
  unfold fire
  split
  · rfl
  · rw [if_pos]
    rw [List.contains_iff_mem.mpr h]
    rfl

/-- A timer that is active and not held calls its callback. -/
theorem fire_of_released (h : Running m) (hhas : m.Has id entry) (hheld : ¬ Held m id entry.type)
    (hactive : (m.objects entry.options).isActive = some true)
    (hcallback : entry.taskCallback.isSome) (hidle : (id, entry.type) ∉ m.dispatching) :
    m.fire id entry = entry.taskCallback := by
  have hinactive : (m.objects entry.options).inactive = false := by
    unfold Options.inactive
    rw [hactive]
    rfl
  have hpaused := h.running id entry hhas hheld hinactive hcallback
  have hcontains : m.loadedHolds.contains (id, entry.type) = false := by simpa [Held] using hheld
  have hdispatching : m.dispatching.contains (id, entry.type) = false := by simpa using hidle
  unfold fire
  rw [hpaused, hcontains, hinactive, hdispatching]
  rfl

/-- Whatever is stored, however the reconciliation of single plans fails and whatever follows
it: a tick of an active timer of a backup, with a callback and no dispatch of it in progress,
calls the callback exactly if the load did not hold the plan, its reconciliation ended well or
the hold was released later. No timer of a backup that the load held calls anything before its
release, and the reconciliation releases exactly the plans for which it ends well. -/
theorem backup_fires (accepts : String → Option String → Bool) (taskCallbacks : String → Option Nat)
    (list : List StoredSchedule) (answers : Answers) (later : List Event) :
    let loaded := (loadSchedules accepts list (start taskCallbacks)).1
    let reconciliation := reconcileSchedules accepts answers loaded
    let m := (reconciliation ++ later).foldl (apply accepts) loaded
    (∀ id entry, m.Has id entry → entry.type = "backup" →
      (m.objects entry.options).isActive = some true → entry.taskCallback.isSome →
      (id, "backup") ∉ m.dispatching →
        (m.fire id entry = entry.taskCallback ↔ (Held loaded id "backup" →
          Reconciled accepts answers loaded id ∨
          Event.activateLoadedSchedule id "backup" ∈ later))) ∧
    (∀ before, before <+: reconciliation ++ later → ∀ id entry,
      (before.foldl (apply accepts) loaded).Has id entry → entry.type = "backup" →
      ((before.foldl (apply accepts) loaded).fire id entry).isSome → Held loaded id "backup" →
        Event.activateLoadedSchedule id "backup" ∈ before) ∧
    ∀ id, Event.activateLoadedSchedule id "backup" ∈ reconciliation ↔
      Reconciled accepts answers loaded id := by
  intro loaded reconciliation m
  have hrunning : Running loaded := running_load list (running_start taskCallbacks)
  have hreleases : ∀ id, Event.activateLoadedSchedule id "backup" ∈ reconciliation ↔
      Reconciled accepts answers loaded id := fun _ => releases_reconcileSchedules hrunning
  refine ⟨fun id entry hhas htype hactive hcallback hidle => ?_,
    fun before _ id entry _ htype hfires hloaded => ?_, hreleases⟩
  -- The hold of the load stands until a release, in the reconciliation or later.
  · have hheld : Held m id entry.type ↔ Held loaded id "backup" ∧
        ¬ (Reconciled accepts answers loaded id ∨
          Event.activateLoadedSchedule id "backup" ∈ later) := by
      rw [htype, ← hreleases, ← List.mem_append]
      exact held_events
    by_cases hcase : Held m id entry.type
    · rw [fire_of_held hcase]
      refine iff_of_false (fun hnone => ?_) fun hreleased =>
        (hheld.mp hcase).2 (hreleased (hheld.mp hcase).1)
      rw [← hnone] at hcallback
      cases hcallback
    · refine iff_of_true (fire_of_released (running_events hrunning _) hhas hcase hactive hcallback
        (htype ▸ hidle)) ?_
      intro hloaded
      by_contra hmissing
      exact hcase (hheld.mpr ⟨hloaded, hmissing⟩)
  -- Without a release the hold is still there, and a held timer calls nothing.
  · by_contra hmissing
    have hheld : Held (before.foldl (apply accepts) loaded) id entry.type := by
      rw [htype]
      exact held_events.mpr ⟨hloaded, hmissing⟩
    rw [fire_of_held hheld] at hfires
    cases hfires

/-! ## A plan whose reconciliation fails -/

/-- The storage of the plan cannot be read, and its cron changed. -/
def failingAnswers : Answers where
  plans := some [⟨"a", "main", "device", true, some ⟨"0 2 * * *", none⟩, "s", ""⟩]
  storage _ := .failed
  saves _ := true
  scheduleTimeZone zone := zone
  queueBackup := 0

/-- After the plan was resumed its timer is active and not paused, but still on hold. -/
theorem resumed_silent :
    let loaded := (loadSchedules (fun _ _ => true)
      [⟨"a", "0 1 * * *", "backup", ⟨some true, none, none, ""⟩⟩] (start fun _ => some 0)).1
    let m := (reconcileSchedules (fun _ _ => true) failingAnswers loaded ++
      [Event.operation (.resumeSchedule "a" none)]).foldl (apply fun _ _ => true) loaded
    m.schedules.get "a" = some [⟨"backup", ⟨false⟩, "0 1 * * *", 0, some 0⟩] ∧
      (m.objects 0).isActive = some true ∧ m.dispatching = [] ∧
      m.fire "a" ⟨"backup", ⟨false⟩, "0 1 * * *", 0, some 0⟩ = none := by
  decide +kernel

end Pluton.Schedules
