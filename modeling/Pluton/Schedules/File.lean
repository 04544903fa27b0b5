-- SUMMARY: Saves that overlap: when the file of the schedules is what is in memory.
import Pluton.Run
import Pluton.Schedules.Loading

/-!
# The file of the schedules

A save takes the schedules as they are, waits until the directory is there, and then writes
them as a text; other calls go on meanwhile. Nothing orders the writes of two saves. The
file follows the memory as long as the last write to end is the one of the newest save.
-/
namespace Pluton.Schedules

open CronManager

/-- How far a save has come. -/
inductive Phase where
  /-- It awaits `mkdir`. -/
  | directory (scheduleData : List Row)
  /-- It awaits `writeFile`; the text was made when that was called. -/
  | writing (text : List StoredSchedule)

structure Save where
  number : Nat
  phase : Phase

/-- The manager, its file, and the saves that have not ended. -/
structure State where
  manager : CronManager
  file : List StoredSchedule
  saves : List Save
  /-- The number of the newest save. -/
  started : Nat

inductive Label where
  | call (operation : Operation)
  | directoryMade (number : Nat)
  | written (number : Nat)

/-- `mkdir` of a save ended. -/
def Save.directoryMade (m : CronManager) (save : Save) : Save :=
  match save.phase with
  | .directory scheduleData => ⟨save.number, .writing (m.stringify scheduleData)⟩
  | .writing _ => save

/-- What happens next. A call that does not succeed changes nothing. -/
def step (accepts : String → Option String → Bool) (s : State) : Label → State
  | .call operation =>
    match s.manager.perform accepts operation with
    | none => s
    | some (next, false) => { s with manager := next }
    | some (next, true) =>
      { s with manager := next, saves := s.saves ++ [⟨s.started + 1, .directory next.scheduleData⟩],
               started := s.started + 1 }
  | .directoryMade number =>
    { s with saves := s.saves.map fun save =>
      if save.number == number then save.directoryMade s.manager else save }
  | .written number =>
    match s.saves.find? (·.number == number) with
    | some ⟨_, .writing text⟩ =>
        { s with file := text, saves := s.saves.filter (·.number != number) }
    | _ => s

/-- A write after which no save is left is that of the newest one. -/
def NewestLast (s : State) : Label → Prop
  | .written number => (∀ save ∈ s.saves, save.number = number) → number = s.started
  | _ => True

instance (s : State) (label : Label) : Decidable (NewestLast s label) := by
  unfold NewestLast
  split <;> infer_instance

variable {accepts : String → Option String → Bool} {s : State} {label : Label}

/-! ## Calls that do not save -/

/-- A call that does not save leaves the schedules as they are. -/
theorem perform_unsaved {m next : CronManager} {operation : Operation}
    (h : m.perform accepts operation = some (next, false)) : next = m := by
  cases operation with
  | scheduleTask id expression options taskCallback type =>
      rcases scheduleTask_cases
        (h : m.scheduleTask accepts id expression options taskCallback type = _) with
        ⟨-, hresult⟩ | ⟨-, ⟨-, hresult⟩ | ⟨-, hresult⟩⟩
      · exact (Prod.mk.inj (Option.some.inj hresult)).1
      · cases hresult
      · cases (Prod.mk.inj (Option.some.inj hresult)).2
  | updateSchedule id expression options taskCallback type =>
      simp only [perform, updateSchedule] at h
      split at h
      · obtain ⟨cron, -, hresult⟩ := Option.map_eq_some_iff.mp h
        cases (Prod.mk.inj hresult).2
      · exact (Prod.mk.inj (Option.some.inj h)).1.symm
  | removeSchedule id =>
      simp only [perform, removeSchedule] at h
      split at h
      · exact (Prod.mk.inj (Option.some.inj h)).1.symm
      · cases (Prod.mk.inj (Option.some.inj h)).2
  | removeSchedulesByType id type =>
      simp only [perform, removeSchedulesByType] at h
      split at h
      · cases (Prod.mk.inj (Option.some.inj h)).2
      · exact (Prod.mk.inj (Option.some.inj h)).1.symm
  | pauseSchedule id type =>
      simp only [perform, pauseSchedule, setActive] at h
      split at h
      · cases (Prod.mk.inj (Option.some.inj h)).2
      · cases h
  | resumeSchedule id type =>
      simp only [perform, resumeSchedule, setActive] at h
      split at h
      · cases (Prod.mk.inj (Option.some.inj h)).2
      · cases h

/-! ## The newest save -/

/-- What a save that started last holds. -/
def Phase.Current (m : CronManager) : Phase → Prop
  | .directory scheduleData => scheduleData = m.scheduleData
  | .writing text => text = m.content

/-- The newest save writes what is in memory, and without a save in flight the file has it. -/
structure Current (s : State) : Prop where
  quiet : s.saves = [] → s.file = s.manager.content
  newest : ∀ save ∈ s.saves, save.number = s.started → save.phase.Current s.manager
  numbers : ∀ save ∈ s.saves, save.number ≤ s.started

theorem Current.call (h : Current s) (operation : Operation) :
    Current (step accepts s (.call operation)) := by
  cases hperform : s.manager.perform accepts operation with
  | none =>
      simp only [step, hperform]
      exact h
  | some result =>
      obtain ⟨next, saves⟩ := result
      cases saves with
      | false =>
          simp only [step, hperform, perform_unsaved hperform]
          exact h
      | true =>
          simp only [step, hperform]
          refine ⟨fun hempty => absurd hempty (by simp), fun save hsave hnumber => ?_,
            fun save hsave => ?_⟩
          · rcases List.mem_append.mp hsave with hold | hnew
            · exact absurd hnumber (Nat.ne_of_lt (Nat.lt_succ_of_le (h.numbers save hold)))
            · rw [List.mem_singleton.mp hnew]
              exact rfl
          · rcases List.mem_append.mp hsave with hold | hnew
            · exact Nat.le_succ_of_le (h.numbers save hold)
            · rw [List.mem_singleton.mp hnew]

theorem Phase.Current.directoryMade {m : CronManager} {save : Save} (h : save.phase.Current m) :
    (save.directoryMade m).phase.Current m := by
  obtain ⟨number, phase⟩ := save
  cases phase with
  | directory scheduleData =>
      obtain rfl : scheduleData = m.scheduleData := h
      exact rfl
  | writing text => exact h

theorem number_directoryMade (m : CronManager) (save : Save) :
    (save.directoryMade m).number = save.number := by
  unfold Save.directoryMade
  split <;> rfl

theorem Current.directoryMade (h : Current s) (number : Nat) :
    Current (step accepts s (.directoryMade number)) := by
  have hnumber : ∀ save : Save,
      (if save.number == number then save.directoryMade s.manager else save).number =
        save.number := by
    intro save
    split
    · exact number_directoryMade s.manager save
    · rfl
  simp only [step]
  refine ⟨fun hempty => h.quiet (List.map_eq_nil_iff.mp hempty), fun save hsave hnewest => ?_,
    fun save hsave => ?_⟩
  · obtain ⟨before, hbefore, rfl⟩ := List.mem_map.mp hsave
    rw [hnumber] at hnewest
    have hcurrent := h.newest before hbefore hnewest
    split
    · exact hcurrent.directoryMade
    · exact hcurrent
  · obtain ⟨before, hbefore, rfl⟩ := List.mem_map.mp hsave
    rw [hnumber]
    exact h.numbers before hbefore

theorem Current.written (h : Current s) {number : Nat} (hlast : NewestLast s (.written number)) :
    Current (step accepts s (.written number)) := by
  simp only [step]
  split
  · next found text hfind =>
      have hmem := List.mem_of_find?_eq_some hfind
      have hnumber : found = number := by simpa using List.find?_some hfind
      refine ⟨fun hempty => ?_, fun save hsave => h.newest save (List.mem_filter.mp hsave).1,
        fun save hsave => h.numbers save (List.mem_filter.mp hsave).1⟩
      have hnone : s.saves.filter (·.number != number) = [] := hempty
      have hall : ∀ save ∈ s.saves, save.number = number := by
        intro save hsave
        by_contra hne
        have hkept : save ∈ s.saves.filter (·.number != number) :=
          List.mem_filter.mpr ⟨hsave, bne_iff_ne.mpr hne⟩
        rw [hnone] at hkept
        exact absurd hkept List.not_mem_nil
      exact h.newest _ hmem (hnumber.trans (hlast hall))
  · exact h

theorem Current.step (h : Current s) (hlast : NewestLast s label) :
    Current (step accepts s label) := by
  cases label with
  | call operation => exact h.call operation
  | directoryMade number => exact h.directoryMade number
  | written number => exact h.written hlast

/-! ## Runs -/

theorem last_write {list : List StoredSchedule} {m : CronManager}
    (hvalid : ∀ stored ∈ list, valid accepts stored) :
    (loadSchedules accepts list m).2.getLast?.getD m.content =
      (loadSchedules accepts list m).1.content := by
  induction list generalizing m with
  | nil => rfl
  | cons first rest ih =>
      obtain ⟨hfirst, hrest⟩ := List.forall_mem_cons.mp hvalid
      rcases loadSchedules_cons accepts first rest m with
        ⟨-, heq⟩ | ⟨-, ⟨hrefused, -⟩ | ⟨-, new, -, -, -, heq⟩⟩
      · rw [heq, ← content_hold m first.id first.scheduleType]
        exact ih hrest
      · exact absurd hfirst hrefused
      · rw [heq, List.getLast?_cons, Option.getD_some]
        exact ih hrest

/-- After a load that refuses nothing the file is what is in memory. -/
theorem file_after_load {list : List StoredSchedule}
    (hvalid : ∀ stored ∈ list, valid accepts stored) (taskCallbacks : String → Option Nat) :
    (loadSchedules accepts list (start taskCallbacks)).2.getLast?.getD list =
      (loadSchedules accepts list (start taskCallbacks)).1.content := by
  rw [← last_write hvalid]
  cases list with
  | nil => rfl
  | cons first rest =>
      rcases loadSchedules_cons accepts first rest (start taskCallbacks) with
        ⟨⟨entry, hhas, -⟩, -⟩ | ⟨-, ⟨hrefused, -⟩ | ⟨-, new, -, -, -, heq⟩⟩
      · have hmem := mem_content.mpr ⟨first.id, entry, hhas, rfl⟩
        rw [content_hold] at hmem
        exact absurd hmem List.not_mem_nil
      · exact absurd (hvalid first List.mem_cons_self) hrefused
      · rw [heq, List.getLast?_cons]
        rfl

def sampleOptions : Options := ⟨some true, none, none, ""⟩

end Pluton.Schedules
