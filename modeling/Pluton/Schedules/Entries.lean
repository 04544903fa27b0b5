-- SUMMARY: The entries of the schedules: where they are, how they are stored, their objects.
import Pluton.Schedules.Manager

/-!
# Entries

An entry belongs to an id. Every entry has an options object of its own, made by the call
that made the entry, so no other entry is changed with it.
-/
namespace Pluton.Schedules.CronManager

variable {accepts : String → Option String → Bool} {m next : CronManager}
  {id type expression : String} {options : Options} {taskCallback : Option Nat} {saves : Bool}
  {entry : ScheduleEntry} {stored : StoredSchedule}

/-! ## Entries -/

/-- `entry` is a schedule of `id`. -/
def Has (m : CronManager) (id : String) (entry : ScheduleEntry) : Prop :=
  entry ∈ (m.schedules.get id).getD []

theorem has_iff : m.Has id entry ↔
    ∃ entries, m.schedules.get id = some entries ∧ entry ∈ entries := by
  unfold Has
  cases m.schedules.get id with
  | none => simp
  | some entries => simp

theorem any_iff {selects : ScheduleEntry → Bool} :
    ((m.schedules.get id).getD []).any selects = true ↔
    ∃ entry, m.Has id entry ∧ selects entry = true :=
  List.any_eq_true

/-- The stored form of an entry. -/
def storedOf (m : CronManager) (id : String) (entry : ScheduleEntry) : StoredSchedule :=
  ⟨id, entry.cronExpression, entry.type, m.objects entry.options⟩

theorem mem_content : stored ∈ m.content ↔
    ∃ id entry, m.Has id entry ∧ m.storedOf id entry = stored := by
  unfold content stringify scheduleData
  rw [List.map_flatMap, List.mem_flatMap]
  constructor
  · rintro ⟨⟨id, entries⟩, hmem, hstored⟩
    rw [List.map_map, List.mem_map] at hstored
    obtain ⟨entry, hentry, rfl⟩ := hstored
    exact ⟨id, entry, has_iff.mpr ⟨entries, OrderedMap.mem_entries.mp hmem, hentry⟩, rfl⟩
  · rintro ⟨id, entry, hhas, rfl⟩
    obtain ⟨entries, hget, hentry⟩ := has_iff.mp hhas
    refine ⟨(id, entries), OrderedMap.mem_entries.mpr hget, ?_⟩
    rw [List.map_map, List.mem_map]
    exact ⟨entry, hentry, rfl⟩

/-- The objects of the entries were made, and none is the object of two entries. No two
entries of an id have the same type. -/
structure Good (m : CronManager) : Prop where
  allocated : ∀ id entry, m.Has id entry → entry.options < m.allocated
  types : ∀ id entry entry', m.Has id entry → m.Has id entry' →
    entry.type = entry'.type → entry = entry'
  own : ∀ id entry id' entry', m.Has id entry → m.Has id' entry' → entry.options = entry'.options →
    id = id' ∧ entry = entry'

theorem good_start (taskCallbacks : String → Option Nat) : Good (start taskCallbacks) where
  allocated _ _ h := absurd h List.not_mem_nil
  types _ _ _ h := absurd h List.not_mem_nil
  own _ _ _ _ h := absurd h List.not_mem_nil

/-! ## Scheduling -/

/-- The manager with a further entry of `id`. -/
def withEntry (m : CronManager) (id : String) (options : Options) (entry : ScheduleEntry) :
    CronManager :=
  { m.alloc options with schedules := m.schedules.set id ((m.schedules.get id).getD [] ++ [entry]) }

/-- The entry that a call makes: its object is the newest. -/
def newEntry (m : CronManager) (id type expression : String) (options : Options)
    (taskCallback : Option Nat) : ScheduleEntry :=
  ⟨type, ⟨options.inactive || m.loadedHolds.contains (id, type)⟩, expression,
    m.allocated, taskCallback⟩

/-- A schedule that is there is kept, a new one is added if its expression is accepted. -/
theorem scheduleTask_cases {result : Option (CronManager × Bool)}
    (h : m.scheduleTask accepts id expression options taskCallback type = result) :
    (∃ entry, m.Has id entry ∧ entry.type = type) ∧ result = some (m, false) ∨
      (¬ ∃ entry, m.Has id entry ∧ entry.type = type) ∧ (
        accepts expression options.zone = false ∧ result = none ∨
        accepts expression options.zone = true ∧
          result = some (m.withEntry id options
            (m.newEntry id type expression options taskCallback), true)) := by
  subst h
  have hany : ((m.schedules.get id).getD []).any (fun entry => entry.type == type) = true ↔
      ∃ entry, m.Has id entry ∧ entry.type = type := by
    simp only [any_iff, beq_iff_eq]
  unfold scheduleTask
  dsimp only
  split
  · next hexists => exact .inl ⟨hany.mp hexists, rfl⟩
  · next hnew =>
      refine .inr ⟨fun hexists => hnew (hany.mpr hexists), ?_⟩
      unfold createCron
      cases haccepts : accepts expression options.zone with
      | false => exact .inl ⟨rfl, rfl⟩
      | true => exact .inr ⟨rfl, rfl⟩

theorem has_withEntry {options : Options} {new : ScheduleEntry} {id' : String} :
    (m.withEntry id options new).Has id' entry ↔ m.Has id' entry ∨ id' = id ∧ entry = new := by
  unfold withEntry Has
  dsimp only
  rw [OrderedMap.get_set]
  split
  · next heq => simp [heq]
  · next hne => simp [hne]

theorem objects_alloc {object : Nat} (h : object < m.allocated) :
    (m.alloc options).objects object = m.objects object := by
  unfold alloc
  exact Function.update_of_ne (Nat.ne_of_lt h) _ _

theorem Good.withEntry (h : Good m) (id : String) (options : Options) {new : ScheduleEntry}
    (hnew : new.options = m.allocated) (htype : ∀ entry, m.Has id entry → entry.type ≠ new.type) :
    Good (m.withEntry id options new) where
  allocated := by
    intro id' entry hhas
    rcases has_withEntry.mp hhas with hhas | ⟨-, rfl⟩
    · exact Nat.lt_succ_of_lt (h.allocated id' entry hhas)
    · exact hnew ▸ Nat.lt_succ_self m.allocated
  types := by
    intro id' entry entry' hhas hhas' hsame
    rcases has_withEntry.mp hhas with hold | ⟨rfl, rfl⟩
    · rcases has_withEntry.mp hhas' with hold' | ⟨rfl, rfl⟩
      · exact h.types id' entry entry' hold hold' hsame
      · exact absurd hsame (htype entry hold)
    · rcases has_withEntry.mp hhas' with hold' | ⟨-, rfl⟩
      · exact absurd hsame.symm (htype entry' hold')
      · rfl
  own := by
    intro id₁ entry id₂ entry' hhas hhas' hsame
    rcases has_withEntry.mp hhas with hold | ⟨rfl, rfl⟩
    · rcases has_withEntry.mp hhas' with hold' | ⟨rfl, rfl⟩
      · exact h.own id₁ entry id₂ entry' hold hold' hsame
      · exact absurd (hsame.trans hnew) (Nat.ne_of_lt (h.allocated id₁ entry hold))
    · rcases has_withEntry.mp hhas' with hold' | ⟨rfl, rfl⟩
      · exact absurd (hsame.symm.trans hnew) (Nat.ne_of_lt (h.allocated id₂ entry' hold'))
      · exact ⟨rfl, rfl⟩

theorem Good.hold (h : Good m) (id type : String) : Good (m.hold id type) := by
  unfold CronManager.hold
  split
  · exact ⟨h.allocated, h.types, h.own⟩
  · exact h

end Pluton.Schedules.CronManager
