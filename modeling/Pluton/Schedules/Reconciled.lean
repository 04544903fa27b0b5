-- SUMMARY: What the reconciliation releases: the plans whose timer is found, right or made.
import Pluton.Schedules.Running

/-!
# Reconciled plans

The reconciliation of a plan releases its hold exactly if it ends well. What it does for one
plan leaves the schedules of every other id alone, so whether it ends well is read off the
schedules that were loaded.
-/
namespace Pluton.Schedules

open CronManager

/-- A timer for the plan can be made and stored. -/
structure Repairable (accepts : String → Option String → Bool) (answers : Answers) (plan : Plan)
    (interval : Interval) : Prop where
  storage : answers.storage plan = .found
  accepted : accepts interval.cronExpression (backupOptions plan interval).zone = true
  saved : answers.saves plan.id = true

/-- The timer of the plan is as the plan says, or it is put right, or
one that is missing is made. -/
inductive Reconciles (accepts : String → Option String → Bool) (answers : Answers) (m : CronManager)
    (plan : Plan) : Prop
  | agrees {entry interval} (has : m.Has plan.id entry) (backup : entry.type = "backup")
      (planned : plan.interval = some interval)
      (same : differs answers m entry plan interval = some false)
  | repaired {entry interval} (has : m.Has plan.id entry) (backup : entry.type = "backup")
      (planned : plan.interval = some interval)
      (stale : differs answers m entry plan interval = some true)
      (repairable : Repairable accepts answers plan interval)
  | created {interval} (missing : m.schedules.get plan.id = none)
      (planned : plan.interval = some interval)
      (repairable : Repairable accepts answers plan interval)

/-- The id is that of a local plan in the database, and the reconciliation of the plan ends well. -/
def Reconciled (accepts : String → Option String → Bool) (answers : Answers) (m : CronManager)
    (id : String) : Prop :=
  ∃ plans plan, answers.plans = some plans ∧
    (dbPlanMap (reconciliationPlans plans)).get id = some plan ∧ Reconciles accepts answers m plan

/-- The id that an operation is for. -/
def CronManager.Operation.id : Operation → String
  | .scheduleTask id _ _ _ _ => id
  | .updateSchedule id _ _ _ _ => id
  | .removeSchedule id => id
  | .removeSchedulesByType id _ => id
  | .pauseSchedule id _ => id
  | .resumeSchedule id _ => id

/-- The id that an event is for; the callbacks are for all of them. -/
def Event.id? : Event → Option String
  | .operation call => some call.id
  | .activateLoadedSchedule id _ => some id
  | .registerCallbacks _ => none
  | .dispatchStarted id _ => some id
  | .dispatchEnded id _ => some id

/-- `next` has the schedules of `id` that `m` has, with the same options. -/
structure SameAt (m next : CronManager) (id : String) : Prop where
  schedules : next.schedules.get id = m.schedules.get id
  objects : ∀ entry, m.Has id entry → next.objects entry.options = m.objects entry.options

variable {accepts : String → Option String → Bool} {answers : Answers} {m next last : CronManager}
  {id other expression : String} {entry : ScheduleEntry} {event : Event} {events : List Event}
  {plan : Plan} {interval : Interval} {options : Options} {taskCallback : Option Nat}
  {scheduledIds : List String}

/-! ## Schedules of other ids -/

theorem SameAt.refl (m : CronManager) (id : String) : SameAt m m id := ⟨rfl, fun _ _ => rfl⟩

theorem SameAt.has (h : SameAt m next id) : next.Has id entry ↔ m.Has id entry := by
  unfold Has
  rw [h.schedules]

theorem SameAt.trans (h : SameAt m next id) (h' : SameAt next last id) : SameAt m last id where
  schedules := h'.schedules.trans h.schedules
  objects entry hhas := (h'.objects entry (h.has.mpr hhas)).trans (h.objects entry hhas)

theorem sameAt_removeSchedule (hne : id ≠ other) : SameAt m (m.removeSchedule other).1 id := by
  unfold removeSchedule
  split
  · exact .refl m id
  · exact ⟨OrderedMap.get_delete.trans (if_neg hne), fun _ _ => rfl⟩

theorem sameAt_removeSchedulesByType {type : String} (hne : id ≠ other) :
    SameAt m (m.removeSchedulesByType other type).1 id := by
  simp only [removeSchedulesByType]
  split
  · refine ⟨?_, fun _ _ => rfl⟩
    dsimp only
    split
    · exact OrderedMap.get_delete.trans (if_neg hne)
    · exact OrderedMap.get_set_of_ne hne
  · exact .refl m id

/-- No schedule of another id has an object that is set. -/
theorem sameAt_setActive (hgood : Good m) {type : Option String} {active saves : Bool}
    (hne : id ≠ other) (hcall : m.setActive other type active = some (next, saves)) :
    SameAt m next id := by
  simp only [setActive] at hcall
  split at hcall
  · obtain ⟨rfl, -⟩ := Prod.mk.inj (Option.some.inj hcall)
    refine ⟨OrderedMap.get_set_of_ne hne, fun entry hhas => if_neg fun hany => ?_⟩
    obtain ⟨selected, hselected, hboth⟩ := List.any_eq_true.mp hany
    rw [Bool.and_eq_true, beq_iff_eq] at hboth
    exact hne (hgood.own other selected id entry hselected hhas hboth.2).1.symm
  · cases hcall

theorem sameAt_perform (hgood : Good m) {operation : Operation} {saves : Bool}
    (hne : id ≠ operation.id) (hcall : m.perform accepts operation = some (next, saves)) :
    SameAt m next id := by
  have halloc : ∀ entry options, m.Has id entry →
      (m.alloc options).objects entry.options = m.objects entry.options :=
    fun entry _ hhas => objects_alloc (hgood.allocated id entry hhas)
  cases operation with
  | scheduleTask other expression options taskCallback type =>
      rcases scheduleTask_cases hcall with ⟨-, hresult⟩ | ⟨-, ⟨-, hresult⟩ | ⟨-, hresult⟩⟩
      · obtain ⟨rfl, -⟩ := Prod.mk.inj (Option.some.inj hresult)
        exact .refl _ id
      · cases hresult
      · obtain ⟨rfl, -⟩ := Prod.mk.inj (Option.some.inj hresult)
        exact ⟨OrderedMap.get_set_of_ne hne, fun entry => halloc entry options⟩
  | updateSchedule other expression options taskCallback type =>
      simp only [perform, updateSchedule] at hcall
      split at hcall
      · obtain ⟨cron, -, hresult⟩ := Option.map_eq_some_iff.mp hcall
        obtain ⟨rfl, -⟩ := Prod.mk.inj hresult
        exact ⟨OrderedMap.get_set_of_ne hne, fun entry => halloc entry options⟩
      · obtain ⟨rfl, -⟩ := Prod.mk.inj (Option.some.inj hcall)
        exact .refl _ id
  | removeSchedule other =>
      obtain ⟨rfl, -⟩ := Prod.mk.inj (Option.some.inj hcall)
      exact sameAt_removeSchedule hne
  | removeSchedulesByType other type =>
      obtain ⟨rfl, -⟩ := Prod.mk.inj (Option.some.inj hcall)
      exact sameAt_removeSchedulesByType hne
  | pauseSchedule other type => exact sameAt_setActive hgood hne hcall
  | resumeSchedule other type => exact sameAt_setActive hgood hne hcall

theorem sameAt_activateLoadedSchedule {type : String} (hne : id ≠ other) :
    SameAt m (m.activateLoadedSchedule other type) id := by
  simp only [activateLoadedSchedule]
  split
  · split
    · exact ⟨rfl, fun _ _ => rfl⟩
    · split
      · exact ⟨OrderedMap.get_set_of_ne hne, fun _ _ => rfl⟩
      · exact ⟨rfl, fun _ _ => rfl⟩
  · exact .refl m id

/-- What happens to one id leaves the schedules of another. -/
theorem sameAt_apply (hgood : Good m) (hevent : event.id? = some other) (hne : id ≠ other) :
    SameAt m (apply accepts m event) id := by
  cases event with
  | operation operation =>
      obtain rfl := Option.some.inj hevent
      simp only [apply]
      cases hcall : m.perform accepts operation with
      | none => exact .refl m id
      | some result => exact sameAt_perform hgood hne hcall
  | activateLoadedSchedule =>
      obtain rfl := Option.some.inj hevent
      exact sameAt_activateLoadedSchedule hne
  | registerCallbacks => cases hevent
  | dispatchStarted => exact ⟨rfl, fun _ _ => rfl⟩
  | dispatchEnded => exact ⟨rfl, fun _ _ => rfl⟩

theorem sameAt_events (h : Running m)
    (hevents : ∀ event ∈ events, ∃ other, event.id? = some other ∧ id ≠ other) :
    SameAt m (events.foldl (apply accepts) m) id := by
  induction events generalizing m with
  | nil => exact .refl m id
  | cons event rest ih =>
      obtain ⟨other, hevent, hne⟩ := hevents event List.mem_cons_self
      exact (sameAt_apply h.toGood hevent hne).trans
        (ih (running_apply h event) fun event hmem => hevents event (List.mem_cons_of_mem _ hmem))

/-! ## Plans whose reconciliation ends well -/

theorem reconciles_of_timer (hgood : Good m) (hhas : m.Has plan.id entry)
    (hbackup : entry.type = "backup") (hinterval : plan.interval = some interval) :
    Reconciles accepts answers m plan ↔ differs answers m entry plan interval = some false ∨
      differs answers m entry plan interval = some true ∧
      Repairable accepts answers plan interval := by
  have honly : ∀ entry', m.Has plan.id entry' → entry'.type = "backup" → entry' = entry :=
    fun entry' hhas' hbackup' =>
      hgood.types plan.id entry' entry hhas' hhas (hbackup'.trans hbackup.symm)
  constructor
  · rintro (⟨hhas', hbackup', hinterval', hsame⟩ | ⟨hhas', hbackup', hinterval',
      hstale, hrepairable⟩ |
      ⟨hmissing, -, -⟩)
    · obtain rfl := honly _ hhas' hbackup'
      obtain rfl := Option.some.inj (hinterval'.symm.trans hinterval)
      exact .inl hsame
    · obtain rfl := honly _ hhas' hbackup'
      obtain rfl := Option.some.inj (hinterval'.symm.trans hinterval)
      exact .inr ⟨hstale, hrepairable⟩
    · obtain ⟨entries, hget, -⟩ := has_iff.mp hhas
      cases hmissing.symm.trans hget
  · rintro (hsame | ⟨hstale, hrepairable⟩)
    · exact .agrees hhas hbackup hinterval hsame
    · exact .repaired hhas hbackup hinterval hstale hrepairable

theorem reconciles_of_no_timer (hnone : ∀ entry, m.Has plan.id entry → entry.type ≠ "backup")
    (hinterval : plan.interval = some interval) :
    Reconciles accepts answers m plan ↔
      m.schedules.get plan.id = none ∧ Repairable accepts answers plan interval := by
  constructor
  · rintro (⟨hhas, hbackup, -, -⟩ | ⟨hhas, hbackup, -, -, -⟩ | ⟨hmissing, hinterval', hrepairable⟩)
    · exact absurd hbackup (hnone _ hhas)
    · exact absurd hbackup (hnone _ hhas)
    · obtain rfl := Option.some.inj (hinterval'.symm.trans hinterval)
      exact ⟨hmissing, hrepairable⟩
  · rintro ⟨hmissing, hrepairable⟩
    exact .created hmissing hinterval hrepairable

theorem not_reconciles_of_no_interval (hinterval : plan.interval = none) :
    ¬ Reconciles accepts answers m plan := by
  rintro (⟨-, -, hsome, -⟩ | ⟨-, -, hsome, -, -⟩ | ⟨-, hsome, -⟩) <;>
    cases hinterval.symm.trans hsome

theorem SameAt.reconciles (h : SameAt m next plan.id) (hplan : Reconciles accepts answers m plan) :
    Reconciles accepts answers next plan := by
  have hdiffers : ∀ {entry interval}, m.Has plan.id entry →
      differs answers next entry plan interval = differs answers m entry plan interval := by
    intro entry interval hhas
    unfold differs
    rw [h.objects entry hhas]
  cases hplan with
  | agrees hhas hbackup hinterval hsame =>
      exact .agrees (h.has.mpr hhas) hbackup hinterval ((hdiffers hhas).trans hsame)
  | repaired hhas hbackup hinterval hstale hrepairable =>
      exact .repaired (h.has.mpr hhas) hbackup hinterval ((hdiffers hhas).trans hstale) hrepairable
  | created hmissing hinterval hrepairable =>
      exact .created (h.schedules.trans hmissing) hinterval hrepairable

theorem SameAt.symm (h : SameAt m next id) : SameAt next m id where
  schedules := h.schedules.symm
  objects entry hhas := (h.objects entry (h.has.mp hhas)).symm

theorem SameAt.reconciles_iff (h : SameAt m next plan.id) :
    Reconciles accepts answers next plan ↔ Reconciles accepts answers m plan :=
  ⟨h.symm.reconciles, h.reconciles⟩

/-! ## What the reconciliation of a plan does -/

theorem find_backup (hgood : Good m) :
    ((m.schedules.get id).getD []).find? (·.type == "backup") = some entry ↔
      m.Has id entry ∧ entry.type = "backup" := by
  constructor
  · intro hfind
    exact ⟨List.mem_of_find?_eq_some hfind, by simpa using List.find?_some hfind⟩
  · rintro ⟨hhas, hbackup⟩
    cases hfind : ((m.schedules.get id).getD []).find? (·.type == "backup") with
    | none => exact absurd (beq_iff_eq.mpr hbackup) (List.find?_eq_none.mp hfind entry hhas)
    | some found =>
        have htype : found.type = "backup" := by simpa using List.find?_some hfind
        rw [hgood.types id found entry (List.mem_of_find?_eq_some hfind) hhas
          (htype.trans hbackup.symm)]

/-- A call that replaces the timer, or makes one where there is none, succeeds if the timer is
accepted and the file is saved. -/
theorem succeeds_scheduled
    (hnone : ((m.schedules.get plan.id).getD []).any (·.type == "backup") = false) :
    succeeds accepts answers m plan.id
      (.scheduleTask plan.id expression options taskCallback "backup") =
      (accepts expression options.zone && answers.saves plan.id) := by
  simp only [succeeds, perform, scheduleTask, hnone, createCron]
  cases accepts expression options.zone <;> rfl

theorem succeeds_updated
    (hsome : ((m.schedules.get plan.id).getD []).any (·.type == "backup") = true) :
    succeeds accepts answers m plan.id
      (.updateSchedule plan.id expression options taskCallback "backup") =
      (accepts expression options.zone && answers.saves plan.id) := by
  simp only [succeeds, perform, updateSchedule, hsome, createCron]
  cases accepts expression options.zone <;> rfl

theorem releases_createOrUpdateSchedules {update : Bool}
    (hupdate : ((m.schedules.get plan.id).getD []).any (·.type == "backup") = update) :
    Event.activateLoadedSchedule plan.id "backup" ∈
        createOrUpdateSchedules accepts answers m plan interval update ↔
      accepts interval.cronExpression (backupOptions plan interval).zone = true ∧
        answers.saves plan.id = true := by
  unfold createOrUpdateSchedules
  cases update with
  | true =>
      simp only [hupdate, Bool.and_self, if_true, succeeds_updated hupdate]
      cases accepts interval.cronExpression (backupOptions plan interval).zone <;>
        cases answers.saves plan.id <;> simp
  | false =>
      simp only [hupdate, Bool.and_self, Bool.false_eq_true, if_false, succeeds_scheduled hupdate]
      cases accepts interval.cronExpression (backupOptions plan interval).zone <;>
        cases answers.saves plan.id <;> simp

theorem id?_of_mem_createOrUpdateSchedules {update : Bool}
    (hmem : event ∈ createOrUpdateSchedules accepts answers m plan interval update) :
    event.id? = some plan.id := by
  simp only [createOrUpdateSchedules] at hmem
  split at hmem
  all_goals
    split at hmem
    all_goals simp only [List.mem_cons, List.not_mem_nil, or_false] at hmem
  · rcases hmem with rfl | rfl <;> rfl
  · rw [hmem]
    rfl
  · rcases hmem with rfl | rfl <;> rfl
  · rw [hmem]
    rfl

theorem repairable_iff : Repairable accepts answers plan interval ↔
    answers.storage plan = .found ∧
      accepts interval.cronExpression (backupOptions plan interval).zone = true ∧
      answers.saves plan.id = true :=
  ⟨fun h => ⟨h.storage, h.accepted, h.saved⟩, fun h => ⟨h.1, h.2.1, h.2.2⟩⟩

/-- A second release of the plan releases nothing else. -/
theorem mem_released_twice :
    event ∈ (if events.contains event then events ++ [event] else events) ↔ event ∈ events := by
  split
  · next hcontains =>
      have hmem : event ∈ events := List.contains_iff_mem.mp hcontains
      exact iff_of_true (List.mem_append_left _ hmem) hmem
  · rfl

/-- The hold of a plan is released exactly if its reconciliation ends well. -/
theorem releases_reconcilePlan (hgood : Good m)
    (hids : scheduledIds.contains plan.id = (m.schedules.get plan.id).isSome) :
    Event.activateLoadedSchedule plan.id "backup" ∈
      reconcilePlan accepts answers scheduledIds m plan ↔
      Reconciles accepts answers m plan := by
  unfold reconcilePlan
  cases hinterval : plan.interval with
  | none =>
      refine iff_of_false ?_ (not_reconciles_of_no_interval hinterval)
      cases ((m.schedules.get plan.id).getD []).find? (·.type == "backup") <;>
        exact List.not_mem_nil
  | some interval =>
      cases hfind : ((m.schedules.get plan.id).getD []).find? (·.type == "backup") with
      | some entry =>
          obtain ⟨hhas, hbackup⟩ := (find_backup hgood).mp hfind
          have hany : ((m.schedules.get plan.id).getD []).any (·.type == "backup") = true :=
            any_iff.mpr ⟨entry, hhas, beq_iff_eq.mpr hbackup⟩
          rw [reconciles_of_timer hgood hhas hbackup hinterval]
          dsimp only
          cases hdiffers : differs answers m entry plan interval with
          | none => simp
          | some stale =>
              cases stale with
              | false => simp
              | true =>
                  -- The timer differs from the plan: it is made anew if the storage is found.
                  rw [repairable_iff]
                  dsimp only
                  cases hstorage : answers.storage plan with
                  | found =>
                      rw [if_pos (beq_self_eq_true _), mem_released_twice,
                        releases_createOrUpdateSchedules hany]
                      simp
                  | incomplete => simp
                  | failed => simp
      | none =>
          have hnone : ∀ entry, m.Has plan.id entry →
              entry.type ≠ "backup" := fun entry hhas hbackup =>
            List.find?_eq_none.mp hfind entry hhas (beq_iff_eq.mpr hbackup)
          have hany : ((m.schedules.get plan.id).getD []).any (·.type == "backup") = false :=
            List.any_eq_false.mpr fun entry hhas htype => hnone entry hhas (beq_iff_eq.mp htype)
          rw [reconciles_of_no_timer hnone hinterval, repairable_iff, hids]
          dsimp only
          cases m.schedules.get plan.id with
          -- An id with other schedules but no backup timer is left as it is.
          | some entries => simp
          | none =>
              cases hstorage : answers.storage plan with
              | found =>
                  simp [releases_createOrUpdateSchedules hany]
              | incomplete => simp
              | failed => simp

theorem id?_of_mem_reconcilePlan
    (hmem : event ∈ reconcilePlan accepts answers scheduledIds m plan) :
    event.id? = some plan.id := by
  simp only [reconcilePlan] at hmem
  split at hmem
  · cases hmem
  · split at hmem
    · cases hmem
    · rw [List.mem_singleton.mp hmem]
      rfl
    · split at hmem
      · split at hmem
        · rcases List.mem_append.mp hmem with hcall | hrelease
          · exact id?_of_mem_createOrUpdateSchedules hcall
          · rw [List.mem_singleton.mp hrelease]
            rfl
        · exact id?_of_mem_createOrUpdateSchedules hmem
      · cases hmem
  · cases hmem
  · split at hmem
    · cases hmem
    · split at hmem
      · exact id?_of_mem_createOrUpdateSchedules hmem
      · cases hmem

/-! ## The whole reconciliation -/

/-- The plans are reconciled one after the other, each as if it were the only one. -/
theorem releases_reconcilePlans {plans : List Plan} (h : Running m)
    (hnodup : (plans.map Plan.id).Nodup)
    (hids : ∀ plan ∈ plans, scheduledIds.contains plan.id = (m.schedules.get plan.id).isSome) :
    Event.activateLoadedSchedule id "backup" ∈ reconcilePlans accepts answers scheduledIds plans m ↔
      ∃ plan ∈ plans, plan.id = id ∧ Reconciles accepts answers m plan := by
  induction plans generalizing m with
  | nil => simp [reconcilePlans]
  | cons plan rest ih =>
      obtain ⟨hfirst, hrest⟩ := List.nodup_cons.mp hnodup
      have hsame : ∀ later ∈ rest, SameAt m
          ((reconcilePlan accepts answers scheduledIds m plan).foldl (apply accepts) m) later.id :=
        fun later hlater => sameAt_events h fun event hmem =>
          ⟨plan.id, id?_of_mem_reconcilePlan hmem,
          fun heq => hfirst (heq ▸ List.mem_map_of_mem hlater)⟩
      have hown : Event.activateLoadedSchedule id "backup" ∈
          reconcilePlan accepts answers scheduledIds m plan ↔
          plan.id = id ∧ Reconciles accepts answers m plan := by
        rw [← releases_reconcilePlan h.toGood (hids plan List.mem_cons_self)]
        constructor
        · intro hmem
          obtain rfl : id = plan.id := Option.some.inj (id?_of_mem_reconcilePlan hmem)
          exact ⟨rfl, hmem⟩
        · rintro ⟨rfl, hmem⟩
          exact hmem
      have hlater := ih (running_events h _) hrest fun later hlater => by
        rw [(hsame later hlater).schedules]
        exact hids later (List.mem_cons_of_mem _ hlater)
      simp only [reconcilePlans]
      rw [List.mem_append, hown, hlater]
      simp only [List.exists_mem_cons_iff]
      refine or_congr_right (exists_congr fun later => and_congr_right fun hmem =>
        and_congr_right fun _ => ?_)
      exact (hsame later hmem).reconciles_iff

/-- A plan of the map is a plan of the list, under its id. -/
theorem get_dbPlanMap {plans : List Plan} (hget : (dbPlanMap plans).get id = some plan) :
    plan ∈ plans ∧ plan.id = id := by
  have hfold : ∀ (plans : List Plan) (map : OrderedMap Plan),
      (plans.foldl (fun map plan => map.set plan.id plan) map).get id = some plan →
        map.get id = some plan ∨ plan ∈ plans ∧ plan.id = id := by
    intro plans
    induction plans with
    | nil => exact fun _ hmap => .inl hmap
    | cons first rest ih =>
        intro map hset
        rcases ih _ hset with hmap | ⟨hmem, hid⟩
        · rw [OrderedMap.get_set] at hmap
          split at hmap
          · next hkey =>
              obtain rfl := Option.some.inj hmap
              exact .inr ⟨List.mem_cons_self, hkey.symm⟩
          · exact .inl hmap
        · exact .inr ⟨List.mem_cons_of_mem _ hmem, hid⟩
  rcases hfold plans .empty hget with hempty | hfound
  · cases hempty
  · exact hfound

/-- The plans of the map: no two have the same id. -/
theorem map_id_dbPlanMap (plans : List Plan) :
    ((dbPlanMap plans).entries.map Prod.snd).map Plan.id =
      (dbPlanMap plans).entries.map Prod.fst := by
  rw [List.map_map]
  refine List.map_congr_left fun ⟨key, plan⟩ hmem => ?_
  exact (get_dbPlanMap (OrderedMap.mem_entries.mp hmem)).2

theorem removes_of_mem_orphans {scheduledIds dbPlanIds : List String}
    (hmem : event ∈ removeOrphanedSchedules m scheduledIds dbPlanIds) :
    ∃ other, event = .operation (.removeSchedule other) ∧ other ∉ dbPlanIds := by
  obtain ⟨other, hother, rfl⟩ := List.mem_map.mp hmem
  refine ⟨other, rfl, fun hplan => ?_⟩
  have hkept := (List.mem_filter.mp hother).2
  rw [List.contains_iff_mem.mpr hplan, Bool.not_true, Bool.and_false] at hkept
  cases hkept

theorem contains_keys {map : OrderedMap (List ScheduleEntry)} :
    (map.entries.map Prod.fst).contains id = (map.get id).isSome := by
  rw [Bool.eq_iff_iff, List.contains_iff_mem, Option.isSome_iff_exists]
  constructor
  · intro hmem
    obtain ⟨⟨key, entries⟩, hentry, rfl⟩ := List.mem_map.mp hmem
    exact ⟨entries, OrderedMap.mem_entries.mp hentry⟩
  · rintro ⟨entries, hget⟩
    exact List.mem_map.mpr ⟨(id, entries), OrderedMap.mem_entries.mpr hget, rfl⟩

/-- The reconciliation releases the plans that are reconciled well, and no others. -/
theorem releases_reconcileSchedules (h : Running m) :
    Event.activateLoadedSchedule id "backup" ∈ reconcileSchedules accepts answers m ↔
      Reconciled accepts answers m id := by
  unfold reconcileSchedules Reconciled
  cases hplans : answers.plans with
  | none => simp
  | some plans =>
      let allPlans := reconciliationPlans plans
      let orphans :=
        removeOrphanedSchedules m (m.schedules.entries.map Prod.fst) (allPlans.map Plan.id)
      have horphans : Event.activateLoadedSchedule id "backup" ∉ orphans := by
        intro hmem
        obtain ⟨other, heq, -⟩ := removes_of_mem_orphans hmem
        cases heq
      -- what is removed is of no plan
      have hsame : ∀ plan ∈ allPlans, SameAt m (orphans.foldl (apply accepts) m) plan.id :=
        fun plan hplan => sameAt_events h fun event hmem => by
          obtain ⟨other, rfl, hother⟩ := removes_of_mem_orphans hmem
          exact ⟨other, rfl, fun heq => hother (heq ▸ List.mem_map_of_mem hplan)⟩
      have hvalues : ∀ plan, plan ∈ (dbPlanMap allPlans).entries.map Prod.snd ↔
          (dbPlanMap allPlans).get plan.id = some plan := by
        intro plan
        constructor
        · intro hmem
          obtain ⟨⟨key, plan⟩, hentry, rfl⟩ := List.mem_map.mp hmem
          have hget := OrderedMap.mem_entries.mp hentry
          rwa [(get_dbPlanMap hget).2]
        · intro hget
          exact List.mem_map.mpr ⟨(plan.id, plan), OrderedMap.mem_entries.mpr hget, rfl⟩
      have hids : ∀ plan ∈ (dbPlanMap allPlans).entries.map Prod.snd,
          (m.schedules.entries.map Prod.fst).contains plan.id =
            ((orphans.foldl (apply accepts) m).schedules.get plan.id).isSome := by
        intro plan hplan
        rw [(hsame plan (get_dbPlanMap ((hvalues plan).mp hplan)).1).schedules, contains_keys]
      have hnodup : (((dbPlanMap allPlans).entries.map Prod.snd).map Plan.id).Nodup := by
        rw [map_id_dbPlanMap]
        exact (dbPlanMap allPlans).nodup
      dsimp only
      rw [List.mem_append, or_iff_right horphans,
        releases_reconcilePlans (running_events h orphans) hnodup hids]
      constructor
      · rintro ⟨plan, hmem, rfl, hreconciles⟩
        have hget := (hvalues plan).mp hmem
        exact ⟨plans, plan, rfl, hget,
          (hsame plan (get_dbPlanMap hget).1).reconciles_iff.mp hreconciles⟩
      · rintro ⟨plans', plan, hsome, hget, hreconciles⟩
        obtain rfl := Option.some.inj hsome
        obtain ⟨hmem, rfl⟩ := get_dbPlanMap hget
        exact ⟨plan, (hvalues plan).mpr hget, rfl, (hsame plan hmem).reconciles_iff.mpr hreconciles⟩

end Pluton.Schedules
