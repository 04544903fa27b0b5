-- SUMMARY: The schedules of the server: timers in memory, operations, and the written file.
import Pluton.OrderedMap

/-!
# Schedules

`backend/src/managers/CronManager.ts`. Each operation is the part of the method that runs in
one turn, from the end of its wait for the first load to its save; whether it saves is part
of what it returns. The timers are those of the package `croner`: whether it and the check
of the time zone take an expression is a parameter, `accepts`.
-/
namespace Pluton.Schedules

/-- What the code reads of an options object, and the text of its other fields. -/
structure Options where
  isActive : Option Bool
  timeZone : Option String
  /-- `options.settings?.interval?.timeZone` -/
  intervalTimeZone : Option String
  rest : String
  deriving DecidableEq

/-- `options.isActive === false` -/
def Options.inactive (options : Options) : Bool := options.isActive == some false

/-- `options.timeZone ?? options.settings?.interval?.timeZone` -/
def Options.zone (options : Options) : Option String :=
  options.timeZone <|> options.intervalTimeZone

structure StoredSchedule where
  id : String
  cronExpression : String
  scheduleType : String
  options : Options
  deriving DecidableEq

/-- A timer. One in the map was never stopped: each `stop()` stands in the turn that takes
its entry from the map. So `pause()` and `resume()` return true. -/
structure Cron where
  paused : Bool
  deriving DecidableEq

structure ScheduleEntry where
  type : String
  cron : Cron
  cronExpression : String
  /-- The options object, which the timer's function reads too. -/
  options : Nat
  /-- The object's function. It is never written after the object was
  made, and JSON leaves it out. -/
  taskCallback : Option Nat
  deriving DecidableEq

structure CronManager where
  schedules : OrderedMap (List ScheduleEntry)
  /-- The options objects, by the order in which they were made. -/
  objects : Nat → Options
  allocated : Nat
  loadedHolds : List (String × String)
  dispatching : List (String × String)
  taskCallbacks : String → Option Nat

namespace CronManager

/-- The manager before the first load. -/
def start (taskCallbacks : String → Option Nat) : CronManager :=
  ⟨.empty, fun _ => ⟨none, none, none, ""⟩, 0, [], [], taskCallbacks⟩

/-! ## Saving -/

/-- An element of `scheduleData`: it shares its options with the schedule. -/
structure Row where
  id : String
  cronExpression : String
  scheduleType : String
  options : Nat

/-- `scheduleData` of `saveSchedules`. -/
def scheduleData (m : CronManager) : List Row :=
  m.schedules.entries.flatMap fun (id, entries) =>
    entries.map fun entry => ⟨id, entry.cronExpression, entry.type, entry.options⟩

/-- `JSON.stringify(scheduleData)`, as what `JSON.parse` gives of it. -/
def stringify (m : CronManager) (data : List Row) : List StoredSchedule :=
  data.map fun row => ⟨row.id, row.cronExpression, row.scheduleType, m.objects row.options⟩

/-- What a save writes when it is not overtaken. -/
def content (m : CronManager) : List StoredSchedule := m.stringify m.scheduleData

/-! ## Operations -/

section

variable (accepts : String → Option String → Bool) (m : CronManager) (id : String)

/-- A new options object. -/
def alloc (options : Options) : CronManager :=
  { m with objects := Function.update m.objects m.allocated options, allocated := m.allocated + 1 }

def createCron (type expression : String) (options : Options) : Option Cron :=
  if accepts expression options.zone then
    some ⟨options.inactive || m.loadedHolds.contains (id, type)⟩
  else none

/-- Nothing is returned where the method throws. -/
def scheduleTask (expression : String) (options : Options) (taskCallback : Option Nat)
    (type : String) :
    Option (CronManager × Bool) :=
  let existing := (m.schedules.get id).getD []
  if existing.any (·.type == type) then some (m, false)
  else
    (m.createCron accepts id type expression options).map fun cron =>
      ({ m.alloc options with
          schedules :=
            m.schedules.set id
              (existing ++ [⟨type, cron, expression, m.allocated, taskCallback⟩]) }, true)

def updateSchedule (expression : String) (options : Options) (taskCallback : Option Nat)
    (type : String) :
    Option (CronManager × Bool) :=
  let existing := (m.schedules.get id).getD []
  if existing.any (·.type == type) then
    (m.createCron accepts id type expression options).map fun cron =>
      ({ m.alloc options with
          schedules := m.schedules.set id (existing.map fun entry =>
            if entry.type == type then ⟨type, cron, expression, m.allocated, taskCallback⟩
              else entry) }, true)
  else some (m, false)

def removeSchedule : CronManager × Bool :=
  match m.schedules.get id with
  | none => (m, false)
  | some _ => ({ m with schedules := m.schedules.delete id }, true)

def removeSchedulesByType (type : String) : CronManager × Bool :=
  let schedules := (m.schedules.get id).getD []
  if schedules.any (·.type == type) then
    let remaining := schedules.filter (·.type != type)
    ({ m with schedules := if remaining.isEmpty then m.schedules.delete id
      else m.schedules.set id remaining }, true)
  else (m, false)

/-- The schedules that a pause or a resume is for; without a type all of them. -/
def selects (type : Option String) (entry : ScheduleEntry) : Bool :=
  type.all fun type => type == "" || type == entry.type

/-- `pauseSchedule` and `resumeSchedule`. Nothing is returned where they return false. -/
def setActive (type : Option String) (active : Bool) : Option (CronManager × Bool) :=
  let schedules := (m.schedules.get id).getD []
  if schedules.any (selects type) then
    some ({ m with
      objects := fun object =>
        if schedules.any fun entry => selects type entry && entry.options == object then
          { m.objects object with isActive := some active }
        else m.objects object
      schedules := m.schedules.set id (schedules.map fun entry =>
        if selects type entry then { entry with cron := ⟨!active⟩ } else entry) }, true)
  else none

def pauseSchedule (type : Option String) : Option (CronManager × Bool) := m.setActive id type false

def resumeSchedule (type : Option String) : Option (CronManager × Bool) := m.setActive id type true

end

inductive Operation where
  | scheduleTask (id expression : String) (options : Options) (taskCallback : Option Nat)
      (type : String)
  | updateSchedule (id expression : String) (options : Options) (taskCallback : Option Nat)
      (type : String)
  | removeSchedule (id : String)
  | removeSchedulesByType (id type : String)
  | pauseSchedule (id : String) (type : Option String)
  | resumeSchedule (id : String) (type : Option String)
  deriving DecidableEq

/-- A call that succeeds, and whether it saves. -/
def perform (accepts : String → Option String → Bool) (m : CronManager) :
    Operation → Option (CronManager × Bool)
  | .scheduleTask id expression options taskCallback type =>
      m.scheduleTask accepts id expression options taskCallback type
  | .updateSchedule id expression options taskCallback type =>
      m.updateSchedule accepts id expression options taskCallback type
  | .removeSchedule id => some (m.removeSchedule id)
  | .removeSchedulesByType id type => some (m.removeSchedulesByType id type)
  | .pauseSchedule id type => m.pauseSchedule id type
  | .resumeSchedule id type => m.resumeSchedule id type

/-! ## The first load -/

/-- Cached backups are held until their plan was reconciled. -/
def hold (m : CronManager) (id type : String) : CronManager :=
  if type == "backup" ||
    type == "remote-backup" then { m with loadedHolds := (id, type) :: m.loadedHolds } else m

/-- The loop of `loadSchedules`: the manager at its end, and what was written on the way, in
order. A schedule that is refused ends the loop. -/
def loadSchedules (accepts : String → Option String → Bool) :
    List StoredSchedule → CronManager → CronManager × List (List StoredSchedule)
  | [], m => (m, [])
  | stored :: rest, m =>
    let held := m.hold stored.id stored.scheduleType
    match held.scheduleTask accepts stored.id stored.cronExpression stored.options
      (held.taskCallbacks stored.scheduleType)
        stored.scheduleType with
    | none => (held, [])
    | some (next, false) => loadSchedules accepts rest next
    | some (next, true) =>
      let (last, writes) := loadSchedules accepts rest next
      (last, next.content :: writes)

end CronManager

end Pluton.Schedules
