-- SUMMARY: What the first load leaves of the stored schedules, in the file and in memory.
import Pluton.Schedules.Entries

/-!
# The first load

Each schedule that is loaded rewrites the file with what was loaded so far. So what comes
after the first one is lost if the process ends early, or if a schedule is refused.
-/
namespace Pluton.Schedules.CronManager

variable {accepts : String → Option String → Bool} {m : CronManager} {stored : StoredSchedule}
  {list : List StoredSchedule}

/-- The expression and the time zone of a stored schedule are accepted. -/
def valid (accepts : String → Option String → Bool) (stored : StoredSchedule) : Prop :=
  accepts stored.cronExpression stored.options.zone = true

/-- One turn of the loop: the schedule is there already, is refused, or is added. -/
theorem loadSchedules_cons (accepts : String → Option String → Bool) (stored : StoredSchedule)
    (rest : List StoredSchedule) (m : CronManager) :
    let held := m.hold stored.id stored.scheduleType
    (∃ entry, held.Has stored.id entry ∧ entry.type = stored.scheduleType) ∧
        loadSchedules accepts (stored :: rest) m = loadSchedules accepts rest held ∨
      (¬ ∃ entry, held.Has stored.id entry ∧ entry.type = stored.scheduleType) ∧ (
        ¬ valid accepts stored ∧ loadSchedules accepts (stored :: rest) m = (held, []) ∨
        valid accepts stored ∧ ∃ new : ScheduleEntry,
          new.options = held.allocated ∧ new.type = stored.scheduleType ∧
          new.cronExpression = stored.cronExpression ∧ loadSchedules accepts (stored :: rest) m =
            ((loadSchedules accepts rest (held.withEntry stored.id stored.options new)).1,
              (held.withEntry stored.id stored.options new).content ::
                (loadSchedules accepts rest (held.withEntry stored.id stored.options new)).2)) := by
  intro held
  obtain ⟨result, hturn⟩ : ∃ result,
      (m.hold stored.id stored.scheduleType).scheduleTask accepts stored.id
      stored.cronExpression stored.options
        ((m.hold stored.id stored.scheduleType).taskCallbacks stored.scheduleType)
      stored.scheduleType = result := ⟨_, rfl⟩
  rcases scheduleTask_cases hturn with
    ⟨hexists, hresult⟩ | ⟨hnew, ⟨hrefused, hresult⟩ | ⟨haccepted, hresult⟩⟩
  · refine .inl ⟨hexists, ?_⟩
    rw [loadSchedules, hturn, hresult]
  · refine .inr ⟨hnew, .inl ⟨by simp [valid, hrefused], ?_⟩⟩
    rw [loadSchedules, hturn, hresult]
  · refine .inr ⟨hnew, .inr ⟨haccepted,
      held.newEntry stored.id stored.scheduleType stored.cronExpression stored.options
      (held.taskCallbacks stored.scheduleType), rfl, rfl, rfl, ?_⟩⟩
    rw [loadSchedules, hturn, hresult]

/-- Adding an entry keeps what is stored of the others. -/
theorem mem_content_withEntry (h : Good m) (id : String) (options : Options) {new : ScheduleEntry}
    (hnew : new.options = m.allocated) : stored ∈ (m.withEntry id options new).content ↔
      stored ∈ m.content ∨ stored = ⟨id, new.cronExpression, new.type, options⟩ := by
  have hmade : (m.withEntry id options new).storedOf id new =
      ⟨id, new.cronExpression, new.type, options⟩ := by
    unfold storedOf withEntry alloc
    dsimp only
    rw [hnew, Function.update_self]
  have hkept : ∀ id' entry, m.Has id' entry →
      (m.withEntry id options new).storedOf id' entry = m.storedOf id' entry := by
    intro id' entry hhas
    unfold storedOf
    exact congrArg _ (objects_alloc (h.allocated id' entry hhas))
  rw [mem_content, mem_content]
  constructor
  · rintro ⟨id', entry, hhas, rfl⟩
    rcases has_withEntry.mp hhas with hhas | ⟨rfl, rfl⟩
    · exact .inl ⟨id', entry, hhas, (hkept id' entry hhas).symm⟩
    · exact .inr hmade
  · rintro (⟨id', entry, hhas, rfl⟩ | rfl)
    · exact ⟨id', entry, has_withEntry.mpr (.inl hhas), hkept id' entry hhas⟩
    · exact ⟨id, new, has_withEntry.mpr (.inr ⟨rfl, rfl⟩), hmade⟩

theorem content_hold (m : CronManager) (id type : String) :
    (m.hold id type).content = m.content := by
  unfold hold
  split <;> rfl

theorem loadSchedules_keeps (h : Good m) (hmem : stored ∈ m.content) :
    (∀ file ∈ (loadSchedules accepts list m).2, stored ∈ file) ∧
    stored ∈ (loadSchedules accepts list m).1.content := by
  induction list generalizing m with
  | nil => exact ⟨nofun, hmem⟩
  | cons first rest ih =>
      have hheld := h.hold first.id first.scheduleType
      have hkeep : stored ∈ (m.hold first.id first.scheduleType).content := by rwa [content_hold]
      rcases loadSchedules_cons accepts first rest m with
        ⟨-, heq⟩ | ⟨hnew, ⟨-, heq⟩ | ⟨-, new, hobject, htype, -, heq⟩⟩
      · rw [heq]
        exact ih hheld hkeep
      · rw [heq]
        exact ⟨nofun, hkeep⟩
      · have hgood := hheld.withEntry first.id first.options hobject fun entry hhas hsame =>
          hnew ⟨entry, hhas, hsame.trans htype⟩
        have hnext := (mem_content_withEntry hheld first.id first.options hobject).mpr (.inl hkeep)
        rw [heq]
        obtain ⟨hwrites, hlast⟩ := ih hgood hnext
        exact ⟨List.forall_mem_cons.mpr ⟨hnext, hwrites⟩, hlast⟩

theorem content_start (taskCallbacks : String → Option Nat) : (start taskCallbacks).content = [] :=
  rfl

/-- After every write of the load, and before the first, the file has every valid schedule that was
stored, and in the end all of them are in memory, exactly if none but the first is valid. -/
theorem load_keeps_iff (accepts : String → Option String → Bool)
    (taskCallbacks : String → Option Nat) (list : List StoredSchedule) :
    ((∀ file ∈ list :: (loadSchedules accepts list (start taskCallbacks)).2,
      ∀ stored ∈ list, valid accepts stored →
        stored ∈ file) ∧
      ∀ stored ∈ list, valid accepts stored →
        stored ∈ (loadSchedules accepts list (start taskCallbacks)).1.content) ↔
    ∀ stored ∈ list, valid accepts stored → list.head? = some stored := by
  cases list with
  | nil => simp
  | cons first rest =>
      have hgood := (good_start taskCallbacks).hold first.id first.scheduleType
      have hempty : ((start taskCallbacks).hold first.id first.scheduleType).content = [] := by
        rw [content_hold, content_start]
      have hnone : ¬ ∃ entry,
          ((start taskCallbacks).hold first.id first.scheduleType).Has first.id entry ∧
          entry.type = first.scheduleType := by
        rintro ⟨entry, hhas, -⟩
        have hmem := mem_content.mpr ⟨first.id, entry, hhas, rfl⟩
        rw [hempty] at hmem
        exact absurd hmem List.not_mem_nil
      rcases loadSchedules_cons accepts first rest (start taskCallbacks) with
        ⟨hexists, -⟩ | ⟨-, hcases⟩
      · exact absurd hexists hnone
      rcases hcases with ⟨hrefused, heq⟩ | ⟨-, new, hobject, htype, hexpression, heq⟩
      · -- nothing is loaded
        rw [heq, hempty]
        constructor
        · rintro ⟨-, hmemory⟩ stored hstored hvalid
          exact absurd (hmemory stored hstored hvalid) List.not_mem_nil
        · intro hfirst
          have hinvalid : ∀ stored ∈ first :: rest, ¬ valid accepts stored := by
            intro stored hstored hvalid
            have hsame : first = stored := Option.some.inj (hfirst stored hstored hvalid)
            exact hrefused (hsame ▸ hvalid)
          exact ⟨fun _ _ stored hstored hvalid => absurd hvalid (hinvalid stored hstored),
            fun stored hstored hvalid => absurd hvalid (hinvalid stored hstored)⟩
      -- the first schedule is loaded, and it is all that the first write holds
      · have hwritten : ∀ stored,
            stored ∈ (((start taskCallbacks).hold first.id first.scheduleType).withEntry first.id
            first.options new).content ↔ stored = first := by
          intro stored
          rw [mem_content_withEntry hgood _ _ hobject, hempty,
            or_iff_right List.not_mem_nil, htype, hexpression]
        rw [heq]
        constructor
        · rintro ⟨hfiles, -⟩ stored hstored hvalid
          have hmem := hfiles _ (List.mem_cons_of_mem _ List.mem_cons_self) stored hstored hvalid
          exact congrArg some ((hwritten stored).mp hmem).symm
        · intro hfirst
          have honly : ∀ stored ∈ first :: rest, valid accepts stored →
              stored = first := fun stored hstored hvalid =>
            (Option.some.inj (hfirst stored hstored hvalid)).symm
          have hgood' := hgood.withEntry first.id first.options hobject fun entry hhas hsame =>
            hnone ⟨entry, hhas, hsame.trans htype⟩
          obtain ⟨hwrites, hlast⟩ :=
            @loadSchedules_keeps accepts _ first rest hgood' ((hwritten first).mpr rfl)
          refine ⟨fun file hfile stored hstored hvalid => ?_, fun stored hstored hvalid => ?_⟩
          · rcases List.mem_cons.mp hfile with rfl | hfile
            · exact hstored
            · rw [honly stored hstored hvalid]
              rcases List.mem_cons.mp hfile with rfl | hfile
              · exact (hwritten first).mpr rfl
              · exact hwrites file hfile
          · rw [honly stored hstored hvalid]
            exact hlast

/-- Two plans, and a process that ends after the first write: the second one is lost. -/
theorem load_loses : let list := [⟨"a", "0 1 * * *", "backup", ⟨some true, none, none, ""⟩⟩,
  ⟨"b", "0 2 * * *", "backup", ⟨some true, none, none, ""⟩⟩]
    ∃ file ∈ (loadSchedules (fun _ _ => true) list (start fun _ => none)).2,
      ∃ stored ∈ list, valid (fun _ _ => true) stored ∧ stored ∉ file := by
  refine ⟨[⟨"a", "0 1 * * *", "backup", ⟨some true, none, none, ""⟩⟩], by decide +kernel,
    ⟨"b", "0 2 * * *", "backup", ⟨some true, none, none, ""⟩⟩,
    by decide, rfl, by decide⟩

end Pluton.Schedules.CronManager
