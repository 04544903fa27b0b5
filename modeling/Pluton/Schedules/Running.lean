-- SUMMARY: The timers that may go on: every event keeps them running.
import Pluton.Schedules.Entries
import Pluton.Schedules.Reconciler

/-!
# Running timers

A timer that is active, has a callback and is not held is never paused. This holds of the
manager before the first load, and every event keeps it.
-/
namespace Pluton.Schedules

open CronManager

variable {accepts : String → Option String → Bool} {m next : CronManager} {id type : String}
  {entry : ScheduleEntry} {event : Event} {events : List Event} {options : Options} {saves : Bool}

/-- The schedule is held. -/
def Held (m : CronManager) (id type : String) : Prop := (id, type) ∈ m.loadedHolds

/-- Timers that may go on do. -/
structure Running (m : CronManager) : Prop extends Good m where
  running : ∀ id entry, m.Has id entry → ¬ Held m id entry.type →
    (m.objects entry.options).inactive = false →
    entry.taskCallback.isSome → entry.cron.paused = false

theorem paused_eq_false (hheld : ¬ Held m id type) (hactive : options.inactive = false) :
    (options.inactive || m.loadedHolds.contains (id, type)) = false := by
  rw [hactive, Bool.false_or]
  simpa [Held] using hheld

theorem running_start (taskCallbacks : String → Option Nat) : Running (start taskCallbacks) where
  toGood := good_start taskCallbacks
  running _ _ h := absurd h List.not_mem_nil

/-! ## A new entry -/

/-- `next` is `m` with a new entry of `id`, in place of the entries of its type. -/
structure Made (m next : CronManager) (id : String) (options : Options) (new : ScheduleEntry) :
    Prop where
  objects : next.objects = (m.alloc options).objects
  allocated : next.allocated = m.allocated + 1
  loadedHolds : next.loadedHolds = m.loadedHolds
  object : new.options = m.allocated
  paused : new.cron.paused = (options.inactive || m.loadedHolds.contains (id, new.type))
  has : ∀ id' entry, next.Has id' entry →
    id' = id ∧ entry = new ∨ m.Has id' entry ∧ (id' = id → entry.type ≠ new.type)

theorem Made.good {new : ScheduleEntry} (h : Made m next id options new) (hgood : Good m) :
    Good next where
  allocated := by
    intro id' entry hhas
    rw [h.allocated]
    rcases h.has id' entry hhas with ⟨-, rfl⟩ | ⟨hold, -⟩
    · exact h.object ▸ Nat.lt_succ_self m.allocated
    · exact Nat.lt_succ_of_lt (hgood.allocated id' entry hold)
  types := by
    intro id' entry entry' hhas hhas' hsame
    rcases h.has id' entry hhas with ⟨hid, rfl⟩ | ⟨hold, hother⟩
    · rcases h.has id' entry' hhas' with ⟨-, rfl⟩ | ⟨-, hother'⟩
      · rfl
      · exact absurd hsame.symm (hother' hid)
    · rcases h.has id' entry' hhas' with ⟨hid, rfl⟩ | ⟨hold', -⟩
      · exact absurd hsame (hother hid)
      · exact hgood.types id' entry entry' hold hold' hsame
  own := by
    intro id₁ entry id₂ entry' hhas hhas' hsame
    rcases h.has id₁ entry hhas with ⟨rfl, rfl⟩ | ⟨hold, -⟩
    · rcases h.has id₂ entry' hhas' with ⟨rfl, rfl⟩ | ⟨hold', -⟩
      · exact ⟨rfl, rfl⟩
      · exact absurd (hsame.symm.trans h.object) (Nat.ne_of_lt (hgood.allocated id₂ entry' hold'))
    · rcases h.has id₂ entry' hhas' with ⟨rfl, rfl⟩ | ⟨hold', -⟩
      · exact absurd (hsame.trans h.object) (Nat.ne_of_lt (hgood.allocated id₁ entry hold))
      · exact hgood.own id₁ entry id₂ entry' hold hold' hsame

theorem Made.running {new : ScheduleEntry} (h : Made m next id options new) (hrunning : Running m) :
    Running next where
  toGood := h.good hrunning.toGood
  running := by
    intro id' entry hhas hheld hactive hcallback
    unfold Held at hheld
    rw [h.loadedHolds] at hheld
    rw [h.objects] at hactive
    rcases h.has id' entry hhas with ⟨rfl, rfl⟩ | ⟨hold, -⟩
    · have hnew : (m.alloc options).objects entry.options = options := by
        rw [h.object]
        exact Function.update_self _ _ _
      rw [hnew] at hactive
      rw [h.paused]
      exact paused_eq_false hheld hactive
    · rw [objects_alloc (hrunning.allocated id' entry hold)] at hactive
      exact hrunning.running id' entry hold hheld hactive hcallback

/-! ## The operations -/

theorem running_scheduleTask (h : Running m) {expression : String} {taskCallback : Option Nat}
    (hcall : m.scheduleTask accepts id expression options taskCallback type = some (next, saves)) :
    Running next := by
  rcases scheduleTask_cases hcall with ⟨-, hresult⟩ | ⟨hnone, ⟨-, hresult⟩ | ⟨-, hresult⟩⟩
  · rw [(Prod.mk.inj (Option.some.inj hresult)).1]
    exact h
  · cases hresult
  · rw [(Prod.mk.inj (Option.some.inj hresult)).1]
    have hmade :
        Made m (m.withEntry id options (m.newEntry id type expression options taskCallback)) id
          options (m.newEntry id type expression options taskCallback) := by
      refine ⟨rfl, rfl, rfl, rfl, rfl, fun id' entry hhas => ?_⟩
      rcases has_withEntry.mp hhas with hold | hnew
      · exact .inr ⟨hold, fun hid hsame => hnone ⟨entry, hid ▸ hold, hsame⟩⟩
      · exact .inl hnew
    exact hmade.running h

theorem has_of_set {schedules : OrderedMap (List ScheduleEntry)} {entries : List ScheduleEntry}
    {id' : String} (hset : next.schedules = schedules.set id entries) (hhas : next.Has id' entry) :
    id' = id ∧ entry ∈ entries ∨ id' ≠ id ∧ entry ∈ (schedules.get id').getD [] := by
  unfold Has at hhas
  rw [hset, OrderedMap.get_set] at hhas
  split at hhas
  · next hid => exact .inl ⟨hid, hhas⟩
  · next hid => exact .inr ⟨hid, hhas⟩

theorem running_updateSchedule (h : Running m) {expression : String} {taskCallback : Option Nat}
    (hcall : m.updateSchedule accepts id expression options taskCallback type =
      some (next, saves)) :
    Running next := by
  simp only [updateSchedule, createCron] at hcall
  split at hcall
  · obtain ⟨cron, hcron, hresult⟩ := Option.map_eq_some_iff.mp hcall
    obtain ⟨rfl, -⟩ := Prod.mk.inj hresult
    split at hcron
    · obtain rfl := Option.some.inj hcron
      have hmade : Made m { m.alloc options with
            schedules := m.schedules.set id (((m.schedules.get id).getD []).map fun entry =>
              if entry.type == type then m.newEntry id type expression options taskCallback
                else entry) } id options
          (m.newEntry id type expression options taskCallback) := by
        refine ⟨rfl, rfl, rfl, rfl, rfl, fun id' entry hhas => ?_⟩
        rcases has_of_set rfl hhas with ⟨rfl, hmem⟩ | ⟨hid, hmem⟩
        · obtain ⟨old, hold, rfl⟩ := List.mem_map.mp hmem
          split
          · exact .inl ⟨rfl, rfl⟩
          · next hne => exact .inr ⟨hold, fun _ hsame => hne (beq_iff_eq.mpr hsame)⟩
        · exact .inr ⟨hmem, fun heq => absurd heq hid⟩
      exact hmade.running h
    · cases hcron
  · rw [← (Prod.mk.inj (Option.some.inj hcall)).1]
    exact h

theorem Running.subset (h : Running m) (hobjects : next.objects = m.objects)
    (hallocated : next.allocated = m.allocated) (hholds : next.loadedHolds = m.loadedHolds)
    (hhas : ∀ id entry, next.Has id entry → m.Has id entry) : Running next where
  allocated := by
    intro id entry hmem
    rw [hallocated]
    exact h.allocated id entry (hhas id entry hmem)
  types id entry entry' hmem hmem' :=
    h.types id entry entry' (hhas id entry hmem) (hhas id entry' hmem')
  own id entry id' entry' hmem hmem' :=
    h.own id entry id' entry' (hhas id entry hmem) (hhas id' entry' hmem')
  running := by
    intro id entry hmem hheld hactive hcallback
    unfold Held at hheld
    rw [hholds] at hheld
    rw [hobjects] at hactive
    exact h.running id entry (hhas id entry hmem) hheld hactive hcallback

theorem has_of_delete {schedules : OrderedMap (List ScheduleEntry)} {id' : String}
    (hdelete : next.schedules = schedules.delete id) (hhas : next.Has id' entry) :
    entry ∈ (schedules.get id').getD [] := by
  unfold Has at hhas
  rw [hdelete, OrderedMap.get_delete] at hhas
  split at hhas
  · exact absurd hhas List.not_mem_nil
  · exact hhas

theorem running_removeSchedule (h : Running m) : Running (m.removeSchedule id).1 := by
  unfold removeSchedule
  split
  · exact h
  · exact h.subset rfl rfl rfl fun _ _ hhas => has_of_delete rfl hhas

theorem running_removeSchedulesByType (h : Running m) :
    Running (m.removeSchedulesByType id type).1 := by
  simp only [removeSchedulesByType]
  split
  · refine h.subset rfl rfl rfl fun id' entry hhas => ?_
    split at hhas
    · exact has_of_delete rfl hhas
    · rcases has_of_set rfl hhas with ⟨rfl, hmem⟩ | ⟨-, hmem⟩
      · exact (List.mem_filter.mp hmem).1
      · exact hmem
  · exact h

/-- The entries of `next` are those of `m` with the timers that `timer` gives them. -/
structure Retimed (m next : CronManager) (timer : String → ScheduleEntry → Cron) : Prop where
  allocated : next.allocated = m.allocated
  has : ∀ id entry, next.Has id entry →
    ∃ old, m.Has id old ∧ entry = { old with cron := timer id old }

theorem Retimed.good {timer : String → ScheduleEntry → Cron} (h : Retimed m next timer)
    (hgood : Good m) : Good next where
  allocated := by
    intro id entry hhas
    obtain ⟨old, hold, rfl⟩ := h.has id entry hhas
    rw [h.allocated]
    exact hgood.allocated id old hold
  types := by
    intro id entry entry' hhas hhas' htype
    obtain ⟨old, hold, rfl⟩ := h.has id entry hhas
    obtain ⟨old', hold', rfl⟩ := h.has id entry' hhas'
    rw [hgood.types id old old' hold hold' htype]
  own := by
    intro id entry id' entry' hhas hhas' hoptions
    obtain ⟨old, hold, rfl⟩ := h.has id entry hhas
    obtain ⟨old', hold', rfl⟩ := h.has id' entry' hhas'
    obtain ⟨rfl, rfl⟩ := hgood.own id old id' old' hold hold' hoptions
    exact ⟨rfl, rfl⟩

theorem running_setActive (h : Running m) {selected : Option String} {active : Bool}
    (hcall : m.setActive id selected active = some (next, saves)) : Running next := by
  simp only [setActive] at hcall
  split at hcall
  · obtain ⟨hnext, -⟩ := Prod.mk.inj (Option.some.inj hcall)
    -- the selected entries get a timer of the new state, the others keep theirs
    have hretimed : Retimed m next fun id' old =>
        if id' = id ∧ selects selected old then ⟨!active⟩ else old.cron := by
      subst hnext
      refine ⟨rfl, fun id' entry hhas => ?_⟩
      rcases has_of_set rfl hhas with ⟨rfl, hmem⟩ | ⟨hid, hmem⟩
      · obtain ⟨old, hold, rfl⟩ := List.mem_map.mp hmem
        refine ⟨old, hold, ?_⟩
        by_cases hselected : selects selected old = true
        · rw [if_pos hselected, if_pos ⟨rfl, hselected⟩]
        · rw [if_neg hselected, if_neg fun hboth => hselected hboth.2]
      · exact ⟨entry, hmem, by rw [if_neg fun hboth => hid hboth.1]⟩
    -- the options of an entry are an object that only its own entry shares
    have hobject : ∀ id' old, m.Has id' old → (next.objects old.options) =
        if id' = id ∧ selects selected old then
          { m.objects old.options with isActive := some active }
        else m.objects old.options := by
      intro id' old hold
      rw [← hnext]
      dsimp only
      refine if_congr ?_ rfl rfl
      rw [List.any_eq_true]
      constructor
      · rintro ⟨other, hother, hboth⟩
        rw [Bool.and_eq_true, beq_iff_eq] at hboth
        obtain ⟨rfl, rfl⟩ := h.own id other id' old hother hold hboth.2
        exact ⟨rfl, hboth.1⟩
      · rintro ⟨rfl, hselected⟩
        exact ⟨old, hold, by simp [hselected]⟩
    have hholds : next.loadedHolds = m.loadedHolds := by
      subst hnext
      rfl
    refine ⟨hretimed.good h.toGood, fun id' entry hhas hheld hactive hcallback => ?_⟩
    obtain ⟨old, hold, rfl⟩ := hretimed.has id' entry hhas
    unfold Held at hheld
    rw [hholds] at hheld
    have hoptions := hobject id' old hold
    by_cases hselected : id' = id ∧ selects selected old = true
    · rw [if_pos hselected] at hoptions
      have hset : (next.objects old.options).inactive = false := hactive
      rw [hoptions] at hset
      dsimp only
      rw [if_pos hselected]
      cases active with
      | true => rfl
      | false => cases hset
    · rw [if_neg hselected] at hoptions
      have hset : (next.objects old.options).inactive = false := hactive
      rw [hoptions] at hset
      dsimp only
      rw [if_neg hselected]
      exact h.running id' old hold hheld hset hcallback
  · cases hcall

theorem running_perform (h : Running m) {operation : Operation}
    (hcall : m.perform accepts operation = some (next, saves)) : Running next := by
  cases operation with
  | scheduleTask => exact running_scheduleTask h hcall
  | updateSchedule => exact running_updateSchedule h hcall
  | removeSchedule =>
      rw [← (Prod.mk.inj (Option.some.inj hcall)).1]
      exact running_removeSchedule h
  | removeSchedulesByType =>
      rw [← (Prod.mk.inj (Option.some.inj hcall)).1]
      exact running_removeSchedulesByType h
  | pauseSchedule => exact running_setActive h hcall
  | resumeSchedule => exact running_setActive h hcall

/-! ## Releases and callbacks -/

theorem mem_released {released : List (String × String)} {key key' : String × String} :
    key ∈ released.filter (· != key') ↔ key ∈ released ∧ key ≠ key' := by
  rw [List.mem_filter, bne_iff_ne]

theorem running_activateLoadedSchedule (h : Running m) :
    Running (m.activateLoadedSchedule id type) := by
  simp only [activateLoadedSchedule]
  split
  · split
    · next hnone =>
        refine ⟨⟨h.allocated, h.types, h.own⟩, fun id' entry hhas hheld hactive hcallback => ?_⟩
        refine h.running id' entry hhas (fun hbefore =>
          hheld (mem_released.mpr ⟨hbefore, fun hkey => ?_⟩)) hactive hcallback
        obtain ⟨rfl, htype⟩ := Prod.mk.inj hkey
        exact List.find?_eq_none.mp hnone entry hhas (beq_iff_eq.mpr htype)
    · next released hfind =>
        have hreleased : m.Has id released := List.mem_of_find?_eq_some hfind
        have htype : released.type = type := by simpa using List.find?_some hfind
        -- the entry that is released is the only one of its key
        have honly : ∀ id' entry, m.Has id' entry → (id', entry.type) = (id, type) →
            id' = id ∧ entry = released := by
          intro id' entry hhas hkey
          obtain ⟨rfl, hsame⟩ := Prod.mk.inj hkey
          exact ⟨rfl, h.types id' entry released hhas hreleased (hsame.trans htype.symm)⟩
        split
        · have hretimed : Retimed m { m with
                loadedHolds := m.loadedHolds.filter (· != (id, type))
                schedules := m.schedules.set id (((m.schedules.get id).getD []).map fun other =>
                  if other == released then { other with cron := ⟨false⟩ } else other) }
              fun id' old => if id' = id ∧ old = released then ⟨false⟩ else old.cron := by
            refine ⟨rfl, fun id' entry hhas => ?_⟩
            rcases has_of_set rfl hhas with ⟨rfl, hmem⟩ | ⟨hid, hmem⟩
            · obtain ⟨old, hold, rfl⟩ := List.mem_map.mp hmem
              refine ⟨old, hold, ?_⟩
              by_cases hsame : old = released
              · rw [if_pos (beq_iff_eq.mpr hsame), if_pos ⟨rfl, hsame⟩]
              · rw [if_neg fun heq => hsame (beq_iff_eq.mp heq), if_neg fun hboth => hsame hboth.2]
            · exact ⟨entry, hmem, by rw [if_neg fun hboth => hid hboth.1]⟩
          refine ⟨hretimed.good h.toGood, fun id' entry hhas hheld hactive hcallback => ?_⟩
          obtain ⟨old, hold, rfl⟩ := hretimed.has id' entry hhas
          dsimp only
          by_cases hsame : id' = id ∧ old = released
          · rw [if_pos hsame]
          · rw [if_neg hsame]
            refine h.running id' old hold (fun hbefore =>
              hheld (mem_released.mpr ⟨hbefore, fun hkey => ?_⟩)) hactive hcallback
            exact hsame (honly id' old hold hkey)
        · next hnot =>
            refine ⟨⟨h.allocated, h.types, h.own⟩, fun id' entry hhas hheld hactive hcallback => ?_⟩
            refine h.running id' entry hhas (fun hbefore =>
              hheld (mem_released.mpr ⟨hbefore, fun hkey => ?_⟩)) hactive hcallback
            obtain ⟨-, rfl⟩ := honly id' entry hhas hkey
            have hinactive : (m.objects entry.options).inactive = false := hactive
            exact hnot (by rw [hinactive, hcallback]; rfl)
  · exact h

theorem patch_type (taskCallbacks : String → Option Nat) :
    (m.patch taskCallbacks id entry).type = entry.type := by
  unfold patch
  split <;> rfl

theorem patch_options (taskCallbacks : String → Option Nat) :
    (m.patch taskCallbacks id entry).options = entry.options ∨
    (m.patch taskCallbacks id entry).options = m.allocated + entry.options := by
  unfold patch
  split
  · exact .inr rfl
  · exact .inl rfl

/-- Two entries that were patched, or not, have the same object only if they had before. -/
theorem patch_options_inj (h : Good m) {taskCallbacks : String → Option Nat} {id' : String}
    {entry' : ScheduleEntry} (hhas : m.Has id entry) (hhas' : m.Has id' entry')
    (hsame : (m.patch taskCallbacks id entry).options =
      (m.patch taskCallbacks id' entry').options) :
    entry.options = entry'.options := by
  have hlt := h.allocated id entry hhas
  have hlt' := h.allocated id' entry' hhas'
  have hoptions := @patch_options m id entry taskCallbacks
  have hoptions' := @patch_options m id' entry' taskCallbacks
  omega

theorem has_registerCallbacks {taskCallbacks : String → Option Nat}
    (hschedules : next.schedules = m.schedules.mapValues fun id entries =>
      entries.map (m.patch taskCallbacks id))
    (hhas : next.Has id entry) : ∃ old, m.Has id old ∧ entry = m.patch taskCallbacks id old := by
  unfold Has at hhas
  rw [hschedules, OrderedMap.get_mapValues] at hhas
  cases hget : m.schedules.get id with
  | none =>
      rw [hget] at hhas
      exact absurd hhas List.not_mem_nil
  | some entries =>
      rw [hget] at hhas
      obtain ⟨old, hold, rfl⟩ := List.mem_map.mp hhas
      exact ⟨old, has_iff.mpr ⟨entries, hget, hold⟩, rfl⟩

theorem running_registerCallbacks (h : Running m) (callbacks : List (String × Nat)) :
    Running (m.registerCallbacks callbacks) := by
  simp only [registerCallbacks]
  split
  · refine ⟨⟨fun id entry hhas => ?_, fun id entry entry' hhas hhas' htype => ?_,
      fun id entry id' entry' hhas hhas' hsame => ?_⟩,
      fun id entry hhas hheld hactive hcallback => ?_⟩
    · obtain ⟨old, hold, rfl⟩ := has_registerCallbacks rfl hhas
      have hlt := h.allocated id old hold
      dsimp only
      rcases patch_options _ with heq | heq <;> rw [heq] <;> omega
    · obtain ⟨old, hold, rfl⟩ := has_registerCallbacks rfl hhas
      obtain ⟨old', hold', rfl⟩ := has_registerCallbacks rfl hhas'
      rw [patch_type, patch_type] at htype
      rw [h.types id old old' hold hold' htype]
    · obtain ⟨old, hold, rfl⟩ := has_registerCallbacks rfl hhas
      obtain ⟨old', hold', rfl⟩ := has_registerCallbacks rfl hhas'
      obtain ⟨rfl, rfl⟩ :=
        h.own id old id' old' hold hold' (patch_options_inj h.toGood hold hold' hsame)
      exact ⟨rfl, rfl⟩
    · obtain ⟨old, hold, rfl⟩ := has_registerCallbacks rfl hhas
      have hlt := h.allocated id old hold
      rw [patch_type] at hheld
      unfold patch at hactive hcallback ⊢
      split
      · next hpatched =>
          rw [if_pos hpatched] at hactive
          dsimp only at hactive ⊢
          rw [if_pos (Nat.le_add_right _ _), Nat.add_sub_cancel_left] at hactive
          exact paused_eq_false hheld hactive
      · next hkept =>
          rw [if_neg hkept] at hactive hcallback
          dsimp only at hactive
          rw [if_neg (Nat.not_le.mpr hlt)] at hactive
          exact h.running id old hold hheld hactive hcallback
  · exact h

theorem running_apply (h : Running m) (event : Event) : Running (apply accepts m event) := by
  cases event with
  | operation operation =>
      simp only [apply]
      cases hcall : m.perform accepts operation with
      | none => exact h
      | some result => exact running_perform h hcall
  | activateLoadedSchedule id type => exact running_activateLoadedSchedule h
  | registerCallbacks callbacks => exact running_registerCallbacks h callbacks
  | dispatchStarted => exact h.subset rfl rfl rfl fun _ _ => id
  | dispatchEnded => exact h.subset rfl rfl rfl fun _ _ => id

theorem running_events (h : Running m) (events : List Event) :
    Running (events.foldl (apply accepts) m) := by
  induction events generalizing m with
  | nil => exact h
  | cons event rest ih => exact ih (running_apply h event)

/-! ## The first load -/

theorem Running.hold (h : Running m) (id type : String) : Running (m.hold id type) := by
  unfold CronManager.hold
  split
  · refine ⟨⟨h.allocated, h.types, h.own⟩, fun id' entry hhas hheld hactive hcallback => ?_⟩
    exact h.running id' entry hhas (fun hbefore =>
      hheld (List.mem_cons_of_mem _ hbefore)) hactive hcallback
  · exact h

theorem running_load (list : List StoredSchedule) (h : Running m) :
    Running (loadSchedules accepts list m).1 := by
  induction list generalizing m with
  | nil => exact h
  | cons stored rest ih =>
      have hheld := h.hold stored.id stored.scheduleType
      simp only [loadSchedules]
      split
      · exact hheld
      · next next hcall => exact ih (running_scheduleTask hheld hcall)
      · next next hcall => exact ih (running_scheduleTask hheld hcall)

end Pluton.Schedules
