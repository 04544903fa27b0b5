-- SUMMARY: The reconciliation of the loaded schedules with the plans, as the calls that it makes.
import Pluton.Schedules.Manager

/-!
# Reconciliation

`backend/src/services/ScheduleReconciler.ts`, `createOrUpdateSchedules` of
`backend/src/managers/BaseBackupManager.ts`, and of the manager what releases a loaded
schedule, patches its callback and lets it fire. The reconciliation is the list of the calls
that it makes, in order; a call whose save fails has its effect in memory all the same.
-/
namespace Pluton.Schedules

namespace CronManager

/-! ## Release, callbacks and firing -/

/-- Releases a loaded schedule; its timer goes on if it is active and has a callback. -/
def activateLoadedSchedule (m : CronManager) (id type : String) : CronManager :=
  if m.loadedHolds.contains (id, type) then
    let released := { m with loadedHolds := m.loadedHolds.filter (· != (id, type)) }
    match ((m.schedules.get id).getD []).find? (·.type == type) with
    | none => released
    | some entry =>
      if !(m.objects entry.options).inactive && entry.taskCallback.isSome then
        { released with
          schedules := m.schedules.set id (((m.schedules.get id).getD []).map fun other =>
            if other == entry then { other with cron := ⟨false⟩ } else other) }
      else released
  else m

/-- A schedule that was loaded before its callback was registered gets a new timer and a new
options object: that of the number `allocated` further. -/
def patch (m : CronManager) (taskCallbacks : String → Option Nat) (id : String)
    (entry : ScheduleEntry) : ScheduleEntry :=
  if entry.taskCallback.isNone && (taskCallbacks entry.type).isSome then
    { entry with
      cron := ⟨(m.objects entry.options).inactive || m.loadedHolds.contains (id, entry.type)⟩
      options := m.allocated + entry.options
      taskCallback := taskCallbacks entry.type }
  else entry

/-- `registerCallbacks`, after its wait. The timers' expressions were accepted before. -/
def registerCallbacks (m : CronManager) (callbacks : List (String × Nat)) : CronManager :=
  let merged := fun type => (m.taskCallbacks type).or (callbacks.lookup type)
  if callbacks.any fun callback => (m.taskCallbacks callback.1).isNone then
    { m with
      taskCallbacks := merged
      objects := fun object => if m.allocated ≤ object then m.objects (object - m.allocated)
        else m.objects object
      allocated := m.allocated + m.allocated
      schedules := m.schedules.mapValues fun id entries => entries.map (m.patch merged id) }
  else m

/-- The callback that a tick of the timer calls. -/
def fire (m : CronManager) (id : String) (entry : ScheduleEntry) : Option Nat :=
  if entry.cron.paused then none
  else if m.loadedHolds.contains (id, entry.type) || (m.objects entry.options).inactive ||
      m.dispatching.contains (id, entry.type) then none
  else entry.taskCallback

end CronManager

open CronManager

/-! ## Events -/

/-- What changes the manager. -/
inductive Event where
  | operation (operation : Operation)
  | activateLoadedSchedule (id type : String)
  | registerCallbacks (callbacks : List (String × Nat))
  | dispatchStarted (id type : String)
  | dispatchEnded (id type : String)
  deriving DecidableEq

/-- The manager after an event; an operation that throws or returns false changes nothing. -/
def apply (accepts : String → Option String → Bool) (m : CronManager) : Event → CronManager
  | .operation operation => ((m.perform accepts operation).map Prod.fst).getD m
  | .activateLoadedSchedule id type => m.activateLoadedSchedule id type
  | .registerCallbacks callbacks => m.registerCallbacks callbacks
  | .dispatchStarted id type => { m with dispatching := (id, type) :: m.dispatching }
  | .dispatchEnded id type => { m with dispatching := m.dispatching.filter (· != (id, type)) }

/-! ## Plans -/

/-- `plan.settings.interval`, with what `intervalToCron` makes of it. -/
structure Interval where
  cronExpression : String
  timeZone : Option String

structure Plan where
  id : String
  sourceId : String
  sourceType : String
  isActive : Bool
  interval : Option Interval
  storageId : String
  /-- The text of the other options of its schedule. -/
  rest : String

/-- What the storage table answers. -/
inductive StorageAnswer where
  | found
  /-- It has no name or no type. -/
  | incomplete
  | failed
  deriving DecidableEq

/-- What the reconciliation is answered. -/
structure Answers where
  /-- All plans, unless they cannot be read. -/
  plans : Option (List Plan)
  /-- The row of a plan's storage, which is looked up at most once for each plan. -/
  storage : Plan → StorageAnswer
  /-- Whether the save for a plan ends well. -/
  saves : String → Bool
  /-- `scheduleTimeZone`; it throws for a zone that is not known. -/
  scheduleTimeZone : Option String → Option String
  /-- The function that queues a backup. -/
  queueBackup : Nat

variable (accepts : String → Option String → Bool) (answers : Answers)

/-- `backupOptions` -/
def backupOptions (plan : Plan) (interval : Interval) : Options :=
  ⟨some plan.isActive, none, interval.timeZone, plan.rest⟩

/-- Whether `createOrUpdateSchedules` gets past its call: it throws if the timer is
refused or the save fails. -/
def succeeds (m : CronManager) (planId : String) (operation : Operation) : Bool :=
  match m.perform accepts operation with
  | none => false
  | some (_, saves) => !saves || answers.saves planId

/-- `createOrUpdateSchedules`. A timer that is there is updated if `update` asks for it. -/
def createOrUpdateSchedules (m : CronManager) (plan : Plan) (interval : Interval) (update : Bool) :
    List Event :=
  let exists_ := ((m.schedules.get plan.id).getD []).any (·.type == "backup")
  let options := backupOptions plan interval
  let operation :=
    if update && exists_ then
      Operation.updateSchedule plan.id interval.cronExpression options
        (some answers.queueBackup) "backup"
    else .scheduleTask plan.id interval.cronExpression options (some answers.queueBackup) "backup"
  if succeeds accepts answers m plan.id operation then
    [.operation operation, .activateLoadedSchedule plan.id "backup"]
  else [.operation operation]

/-- Whether a timer is not what its plan says; nothing if a time zone is refused. -/
def differs (m : CronManager) (entry : ScheduleEntry) (plan : Plan) (interval : Interval) :
    Option Bool :=
  let options := m.objects entry.options
  if entry.cronExpression != interval.cronExpression then some true
  else
    match answers.scheduleTimeZone options.intervalTimeZone,
      answers.scheduleTimeZone interval.timeZone with
    | some zone, some zone' => some (zone != zone' || options.isActive != some plan.isActive)
    | _, _ => none

/-- The body of the loop over the plans. -/
def reconcilePlan (scheduledIds : List String) (m : CronManager) (plan : Plan) : List Event :=
  match ((m.schedules.get plan.id).getD []).find? (·.type == "backup"), plan.interval with
  | some _, none => []
  | some entry, some interval =>
    match differs answers m entry plan interval with
    | none => []
    | some false => [.activateLoadedSchedule plan.id "backup"]
    | some true =>
      if answers.storage plan == .found then
        -- the second release is without effect, if the first took place
        let events := createOrUpdateSchedules accepts answers m plan interval true
        if events.contains (.activateLoadedSchedule plan.id "backup") then
          events ++ [.activateLoadedSchedule plan.id "backup"]
        else events
      else []
  | none, none => []
  | none, some interval =>
    -- what other kinds of schedules the id has is kept
    if scheduledIds.contains plan.id then []
    else if answers.storage plan == .found then
      createOrUpdateSchedules accepts answers m plan interval false
    else []

/-- The loop over the plans. -/
def reconcilePlans (scheduledIds : List String) : List Plan → CronManager → List Event
  | [], _ => []
  | plan :: rest, m =>
    let events := reconcilePlan accepts answers scheduledIds m plan
    events ++ reconcilePlans scheduledIds rest (events.foldl (apply accepts) m)

/-- The schedules of plans that are gone; those of remote backups are left. -/
def removeOrphanedSchedules (m : CronManager) (scheduledIds dbPlanIds : List String) : List Event :=
  (scheduledIds.filter fun id =>
    !((m.schedules.get id).getD []).any (·.type == "remote-backup") &&
    !dbPlanIds.contains id).map fun id =>
      .operation (.removeSchedule id)

/-- `getReconciliationPlans` -/
def reconciliationPlans (plans : List Plan) : List Plan :=
  plans.filter fun plan => plan.sourceId == "main" || plan.sourceType == "storage"

/-- `dbPlanMap`: of plans with one id the last. -/
def dbPlanMap (allPlans : List Plan) : OrderedMap Plan :=
  allPlans.foldl (fun map plan => map.set plan.id plan) .empty

def reconcileSchedules (m : CronManager) : List Event :=
  match answers.plans with
  | none => []
  | some plans =>
    let allPlans := reconciliationPlans plans
    let scheduledIds := m.schedules.entries.map Prod.fst
    let orphans := removeOrphanedSchedules m scheduledIds (allPlans.map Plan.id)
    orphans ++ reconcilePlans accepts answers scheduledIds
      ((dbPlanMap allPlans).entries.map Prod.snd) (orphans.foldl (apply accepts) m)

end Pluton.Schedules
