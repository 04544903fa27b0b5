-- SUMMARY: The notification outbox: its tables, triggers and transactions.
import Pluton.Ends
import Pluton.Table

/-!
# The notification store

`backend/src/stores/NotificationDeliveryStore.ts` over the tables of
`backend/drizzle/0010_phase7_notification_outbox.sql`. Inputs have passed their parsers.
A random id is the next one of a counter. What a payload says besides its event type, and
the names of plans, decide nothing here.
-/
namespace Pluton.Notifications

open Except

/-! ## Rows -/

inductive ChannelKind where
  | webhook
  | smtp
  deriving DecidableEq

structure AppError where
  statusCode : Nat
  message : String

structure ChannelRow where
  id : Nat
  name : String
  kind : ChannelKind
  enabled : Bool
  deleted : Bool := false
  events : List String
  username : String
  encryptedSecret : Option String
  revision : Nat := 1
  sourceFloor : Nat
  createdAt : Nat

/-- `username` is empty where the configuration has none; a secret that is kept is `none`. -/
structure ChannelInput where
  name : String
  kind : ChannelKind
  enabled : Bool
  events : List String
  username : String
  secret : Option String

structure SubscriptionRow where
  planId : String
  enabled : Bool
  channelIds : List Nat
  events : List String
  sourceFloor : Nat

structure SubscriptionInput where
  enabled : Bool
  channelIds : List Nat
  events : List String

structure EventRow where
  id : Nat
  logicalKey : String
  eventType : String
  planId : Option String
  createdAt : Nat

inductive DeliveryStatus where
  | pending
  | sending
  | succeeded
  | failed
  deriving DecidableEq

/-- `status IN ('pending','sending')` -/
def DeliveryStatus.isOpen : DeliveryStatus → Bool
  | .pending => true
  | .sending => true
  | .succeeded => false
  | .failed => false

structure DeliveryRow where
  id : Nat
  eventId : Nat
  channelId : Nat
  channelName : String
  kind : ChannelKind
  revision : Nat
  status : DeliveryStatus := .pending
  attemptCount : Nat := 0
  cycleAttempts : Nat := 0
  manualRetries : Nat := 0
  createdAt : Nat
  lastAttemptAt : Option Nat := none
  nextAttemptAt : Option Nat := none
  completedAt : Option Nat := none
  leaseUntil : Option Nat := none
  leaseOwner : Option Nat := none
  errorCode : Option String := none
  httpStatus : Option Nat := none

inductive SourceKind where
  | backup
  | recovery
  deriving DecidableEq

def SourceKind.text : SourceKind → String
  | .backup => "backup"
  | .recovery => "recovery"

structure SourceRow where
  id : Nat
  kind : SourceKind
  jobId : String
  ready : Bool

/-- A row of `backups` or of `recovery_tests`: `inProgress` is of a backup, `infrastructure`
says that its `cleanup.infrastructure` is not 0, `warned` that it has warnings. -/
structure Job where
  kind : SourceKind
  id : String
  planId : String
  status : String
  inProgress : Bool := false
  infrastructure : Bool := true
  warned : Bool := false

/-- The condition of the triggers. -/
def Job.terminal (job : Job) : Bool :=
  match job.kind with
  | .backup => ["completed", "failed", "cancelled"].contains job.status && !job.inProgress
  | .recovery => ["passed", "passed_with_warning", "failed", "cancelled"].contains job.status

/-- The condition of the projection. -/
def Job.projected (job : Job) : Bool := job.terminal && (job.kind == .backup || job.infrastructure)

/-- The event type of `terminalPayload`. -/
def Job.eventType (job : Job) : String :=
  match job.kind with
  | .backup =>
      if job.status = "completed" then if job.warned then "backup.completed_with_warning"
        else "backup.completed"
      else if job.status = "cancelled" then "backup.cancelled"
      else "backup.failed"
  | .recovery => "recovery." ++ job.status

/-- The logical key of the event of a job that ended in a status. -/
def logicalKey (kind : SourceKind) (jobId status : String) : String :=
  kind.text ++ ":" ++ jobId ++ ":" ++ status

/-- The attempts of the row are used up. -/
def DeliveryRow.exhausted (row : DeliveryRow) : Bool :=
  5 ≤ row.cycleAttempts || 20 ≤ row.attemptCount

/-- A lease that has run out goes back to the queue, or fails. -/
def DeliveryRow.interrupt (row : DeliveryRow) (now : Nat) : DeliveryRow :=
  { row with
    status := if row.exhausted then .failed else .pending
    errorCode := some "delivery-interrupted"
    nextAttemptAt := if row.exhausted then none else some (now + 30000)
    completedAt := if row.exhausted then some now else none
    leaseOwner := none
    leaseUntil := none }

structure DeliveryResult where
  success : Bool
  retryable : Bool := false
  code : Option String := none
  status : Option Nat := none
  retryAfterSeconds : Nat := 0

/-- The time to the next attempt. -/
def retryDelay (cycleAttempts retryAfterSeconds : Nat) : Nat :=
  min 3600000 (max (30000 * 2 ^ (cycleAttempts - 1)) (retryAfterSeconds * 1000))

/-- The trigger on an update marks the source. -/
def Job.marks (old new : Job) : Bool :=
  new.terminal && (old.status != new.status ||
    (new.kind == .backup && old.inProgress != new.inProgress))

/-- The delivery has attempts left after a failure that may pass. -/
def DeliveryRow.retries (delivery : DeliveryRow) (result : DeliveryResult) : Bool :=
  !result.success && result.retryable && delivery.cycleAttempts < 5 && delivery.attemptCount < 20

/-- The row is still leased to the owner of the delivery. -/
def DeliveryRow.owns (delivery row : DeliveryRow) : Bool :=
  row.id == delivery.id && row.status == .sending && row.leaseOwner.isSome &&
    row.leaseOwner == delivery.leaseOwner

/-- The row with the outcome of a delivery. -/
def DeliveryRow.finish (row delivery : DeliveryRow) (result : DeliveryResult) (now : Nat) :
    DeliveryRow :=
  { row with
    status :=
      if result.success then .succeeded else if delivery.retries result then .pending else .failed
    errorCode := if result.success then none else some (result.code.getD "delivery-failed")
    httpStatus := result.status.filter (· ≠ 0)
    nextAttemptAt :=
      if delivery.retries result then
        some (now + retryDelay delivery.cycleAttempts result.retryAfterSeconds)
      else none
    completedAt := if delivery.retries result then none else some now
    leaseOwner := none
    leaseUntil := none }

structure Tables where
  channels : List ChannelRow := []
  subscriptions : List SubscriptionRow := []
  events : List EventRow := []
  deliveries : List DeliveryRow := []
  sources : List SourceRow := []
  observed : List (Nat × String) := []
  jobs : List Job := []
  plans : List String := []
  nextId : Nat := 0
  nextSource : Nat := 1

def maxPending : Nat := 10000

def maxHistory : Nat := 20000

namespace Tables

variable (t : Tables)

/-! ## Channels and subscriptions -/

/-- `COALESCE(MAX(id),0)` -/
def floor : Nat := t.sources.foldl (fun top source => max top source.id) 0

def channelRow (id : Nat) : Option ChannelRow := t.channels.find? (·.id == id)

/-- The channels that are not deleted, in the order of their creation. -/
def listChannels : List ChannelRow :=
  (t.channels.filter fun row => !row.deleted).mergeSort fun a b =>
    a.createdAt < b.createdAt || (a.createdAt == b.createdAt && a.id ≤ b.id)

def requirePlan (planId : String) : Except AppError Unit :=
  refuseIf (!t.plans.contains planId) ⟨404, "Backup plan not found."⟩

def saveChannel (value : ChannelInput) (channelId : Option Nat) (now : Nat) :
    Except AppError Tables := do
  let saved := channelId.bind t.channelRow
  refuseIf (channelId.isSome && !saved.any fun row => !row.deleted) ⟨404,
    "Notification channel not found."⟩
  refuseIf (saved.any fun row => row.kind != value.kind) ⟨400,
    "Channel type cannot be changed. Create a new channel."⟩
  refuseIf (saved.isNone && 32 ≤ t.listChannels.length) ⟨409,
    "A maximum of 32 notification channels is supported."⟩
  let secret :=
    match value.secret with
    | none => saved.bind (·.encryptedSecret)
    | some text => if text = "" then none else some text
  refuseIf (value.kind == .smtp && value.username != "" && secret.isNone)
    ⟨400, "SMTP authentication requires a saved password."⟩
  match saved with
  | some row =>
      pure { t with channels := Table.update t.channels (·.id == row.id) fun row =>
        { row with
          name := value.name
          enabled := value.enabled
          events := value.events
          username := value.username
          encryptedSecret := secret
          revision := row.revision + 1
          sourceFloor := if !row.enabled && value.enabled then t.floor else row.sourceFloor } }
  | none =>
      pure { t with
        channels :=
          t.channels ++ [{ id := t.nextId, name := value.name, kind := value.kind,
                           enabled := value.enabled,
                                     events := value.events, username := value.username,
                                     encryptedSecret := secret,
                                     sourceFloor := t.floor, createdAt := now }]
        nextId := t.nextId + 1 }

def deleteChannel (channelId : Nat) : Except AppError Tables := do
  refuseIf (!t.channels.any fun row => row.id == channelId && !row.deleted) ⟨404,
    "Notification channel not found."⟩
  pure { t with
    channels := Table.update t.channels (fun row => row.id == channelId && !row.deleted) fun row =>
      { row with deleted := true, enabled := false, encryptedSecret := none,
                 revision := row.revision + 1 }
    subscriptions := t.subscriptions.map fun row =>
      let ids := row.channelIds.filter (· != channelId)
      { row with channelIds := ids, enabled := !ids.isEmpty && row.enabled } }

def subscriptionRow (planId : String) : Option SubscriptionRow :=
  t.subscriptions.find? (·.planId == planId)

def saveSubscription (planId : String) (value : SubscriptionInput) : Except AppError Tables := do
  t.requirePlan planId
  refuseIf (value.channelIds.any fun id => !(t.channelRow id).any fun row => !row.deleted)
    ⟨400, "Select existing notification channels."⟩
  let saved := t.subscriptionRow planId
  let ids := value.channelIds.mergeSort (· ≤ ·)
  let events := value.events.mergeSort (· ≤ ·)
  let changed := !saved.any fun row => row.enabled && row.channelIds == ids && row.events == events
  let row : SubscriptionRow :=
    { planId, enabled := value.enabled, channelIds := ids, events
      sourceFloor := if changed then t.floor else (saved.map (·.sourceFloor)).getD t.floor }
  pure { t with subscriptions :=
    if saved.isSome then Table.update t.subscriptions (·.planId == planId) fun _ =>
      row else t.subscriptions ++ [row] }

/-- Whether the plan of a delivery is still there and still subscribes to its channel and event. -/
def deliveryPolicyError (planId : Option String) (channelId : Nat) (eventType : String) :
    Option String :=
  match planId with
  | none => none
  | some planId =>
      if !t.plans.contains planId then some "plan-removed"
      else if (t.subscriptionRow planId).any fun policy =>
          policy.enabled && policy.channelIds.contains channelId &&
          policy.events.contains eventType then none
      else some "subscription-disabled"

/-! ## Events -/

def pendingCount : Nat := (t.deliveries.filter (·.status.isOpen)).length

/-- `INSERT OR IGNORE` of the delivery of an event to a channel. -/
def insertDelivery (eventId now : Nat) (channel : ChannelRow) : Tables :=
  if t.deliveries.any fun row => row.eventId == eventId && row.channelId == channel.id then t
  else
    { t with
      deliveries :=
        t.deliveries ++ [{ id := t.nextId, eventId, channelId := channel.id,
                           channelName := channel.name,
                                       kind := channel.kind,
                                       revision := channel.revision, createdAt := now,
                                       nextAttemptAt := some now }]
      nextId := t.nextId + 1 }

/-- `INSERT OR IGNORE` of an event, whose id is random. -/
def insertEventRow (key eventType : String) (planId : Option String) (now : Nat) : Tables :=
  if t.events.any (·.logicalKey == key) then t
  else { t with events := t.events ++ [⟨t.nextId, key, eventType, planId, now⟩],
                nextId := t.nextId + 1 }

/-- The event with the key goes to the channels. -/
def insertEvent (key eventType : String) (planId : Option String) (channels : List ChannelRow)
    (now : Nat) : Tables :=
  let t := t.insertEventRow key eventType planId now
  match t.events.find? (·.logicalKey == key) with
  | none => t
  | some event => channels.foldl (fun t channel => t.insertDelivery event.id now channel) t

/-! ## The projection -/

/-- The job of a source, if it is there and its plan is. -/
def jobOf (source : SourceRow) : Option Job :=
  t.jobs.find? fun job => job.kind == source.kind && job.id == source.jobId &&
    t.plans.contains job.planId

/-- The sources that wait for their event. -/
def projection (limit : Nat) : List SourceRow :=
  ((t.sources.filter fun source => source.ready && (t.jobOf source).any Job.projected).mergeSort
    fun a b => a.id ≤ b.id).take limit

def unready (sourceId : Nat) : Tables :=
  { t with sources := Table.update t.sources (·.id == sourceId) fun source =>
    { source with ready := false } }

/-- The channels that the event of a job goes to. -/
def recipients (source : SourceRow) (job : Job) : List ChannelRow :=
  match t.subscriptions.find? fun row =>
    row.planId == job.planId && row.enabled && row.sourceFloor < source.id with
  | none => []
  | some subscription =>
      if subscription.events.contains job.eventType then
        t.listChannels.filter fun channel =>
          channel.enabled && channel.sourceFloor < source.id &&
            subscription.channelIds.contains channel.id &&
            channel.events.contains job.eventType
      else []

/-- The event of a job is recorded: its deliveries, and that its status was observed. -/
def record (source : SourceRow) (job : Job) (channels : List ChannelRow) (now : Nat) : Tables :=
  let t :=
    if channels.isEmpty then t
    else
      t.insertEvent (logicalKey job.kind job.id job.status) job.eventType
        (some job.planId) channels now
  { t with observed := if t.observed.contains (source.id, job.status) then t.observed
    else t.observed ++ [(source.id, job.status)] }

/-- One turn of the loop; `none` breaks it. -/
def project (source : SourceRow) (now : Nat) : Option Tables :=
  match t.jobOf source with
  | none => some t
  | some job =>
      if t.observed.contains (source.id, job.status) then some (t.unready source.id)
      else
        let channels := t.recipients source job
        if maxPending < t.pendingCount + channels.length then none
        else some ((t.record source job channels now).unready source.id)

def projectAll (now : Nat) (t : Tables) : List SourceRow → Tables
  | [] => t
  | source :: sources =>
      match t.project source now with
      | none => t
      | some t => projectAll now t sources

def reconcile (limit now : Nat) : Tables := projectAll now t (t.projection limit)

def test (channelId now : Nat) : Except AppError Tables := do
  match t.channelRow channelId with
  | none => throw ⟨404, "Notification channel not found."⟩
  | some channel =>
      refuseIf channel.deleted ⟨404, "Notification channel not found."⟩
      refuseIf (!channel.enabled) ⟨409, "Enable the channel before sending a test."⟩
      refuseIf (maxPending ≤ t.pendingCount) ⟨409, "Notification queue is full. Retry later."⟩
      pure (t.insertEvent ("ne_" ++ toString t.nextId) "notification.test" none [channel] now)

/-! ## Deliveries -/

/-- A delivery as it is handed out: its row and what is computed from the other tables. -/
structure Delivery where
  row : DeliveryRow
  eventType : String
  planId : Option String
  canRetry : Bool

def deliveryView (row : DeliveryRow) (event : EventRow) : Delivery where
  row := row
  eventType := event.eventType
  planId := event.planId
  canRetry :=
    row.status == .failed && row.manualRetries < 3 && row.attemptCount < 20 &&
      ((t.channelRow row.channelId).any fun channel => channel.enabled && !channel.deleted) &&
      (t.deliveryPolicyError event.planId row.channelId event.eventType).isNone

def delivery (id : Nat) : Option Delivery :=
  (t.deliveries.find? (·.id == id)).bind fun row =>
    (t.events.find? (·.id == row.eventId)).map fun event => t.deliveryView row event

def recover (now : Nat) : Tables :=
  { t with
    deliveries :=
      Table.update t.deliveries (fun row => row.status == .sending && row.leaseUntil.any (· ≤ now))
      fun row => row.interrupt now }

/-- The delivery that is due first. -/
def due (now : Nat) : Option DeliveryRow :=
  ((t.deliveries.filter fun row =>
    row.status == .pending && row.nextAttemptAt.any (· ≤ now) && !row.exhausted).mergeSort
    fun a b => a.nextAttemptAt.getD 0 < b.nextAttemptAt.getD 0 ||
      (a.nextAttemptAt.getD 0 == b.nextAttemptAt.getD 0 && a.createdAt ≤ b.createdAt)).head?

def take (id owner now : Nat) : Tables :=
  { t with
    deliveries :=
      Table.update t.deliveries (fun row => row.id == id && row.status == .pending) fun row =>
        { row with
          status := .sending
          attemptCount := row.attemptCount + 1
          cycleAttempts := row.cycleAttempts + 1
          lastAttemptAt := some now
          leaseOwner := some owner
          leaseUntil := some (now + 60000) } }

def sendingCount : Nat := (t.deliveries.filter (·.status == .sending)).length

/-- The owner is the next random id. -/
def claim (now : Nat) : Tables × Option Delivery :=
  let owner := t.nextId
  let t := { t.recover now with nextId := owner + 1 }
  if 2 ≤ t.sendingCount then (t, none)
  else
    match t.due now with
    | none => (t, none)
    | some row => (t.take row.id owner now, (t.take row.id owner now).delivery row.id)

def finish (delivery : Delivery) (result : DeliveryResult) (now : Nat) : Tables :=
  { t with deliveries := Table.update t.deliveries delivery.row.owns fun row =>
    row.finish delivery.row result now }

def retry (deliveryId now : Nat) : Except AppError Tables := do
  match t.delivery deliveryId with
  | none => throw ⟨404, "Notification delivery not found."⟩
  | some delivery =>
      refuseIf (!delivery.canRetry)
        ⟨409,
          "This delivery cannot be retried. Enable the channel, review its configuration and retry limits."⟩
      refuseIf (maxPending ≤ t.pendingCount) ⟨409, "Notification queue is full. Retry later."⟩
      pure { t with
        deliveries :=
          Table.update t.deliveries (fun row =>
            row.id == deliveryId && row.status == .failed) fun row =>
              { row with
                status := .pending
                revision := ((t.channelRow delivery.row.channelId).map (·.revision)).getD 0
                cycleAttempts := 0
                manualRetries := row.manualRetries + 1
                nextAttemptAt := some (now + 30000)
                completedAt := none
                errorCode := none
                httpStatus := none } }

/-- The finished deliveries behind the latest `maxHistory`. -/
def outdated : List Nat :=
  (((t.deliveries.filter fun row => !row.status.isOpen).mergeSort fun a b =>
    b.createdAt ≤ a.createdAt).drop maxHistory).map (·.id)

def maintenance (now : Nat) : Tables :=
  let old := t.outdated
  let deliveries := t.deliveries.filter fun row => !old.contains row.id
  let deliveries :=
    deliveries.filter fun row => row.status.isOpen || !(row.createdAt < now - 30 * 86400000)
  { t with
    deliveries
    events := t.events.filter fun event => deliveries.any fun row => row.eventId == event.id
    channels := t.channels.filter fun channel => !channel.deleted || deliveries.any fun row =>
      row.channelId == channel.id }

/-! ## Jobs and plans -/

/-- A new job, with the trigger on its insertion. -/
def addJob (job : Job) : Tables :=
  if t.jobs.any fun other => other.kind == job.kind && other.id == job.id then t
  else
    let t := { t with jobs := t.jobs ++ [job] }
    if t.sources.any fun source => source.kind == job.kind && source.jobId == job.id then t
    else
      { t with
        sources :=
          t.sources ++ [{ id := t.nextSource, kind := job.kind, jobId := job.id,
                          ready := job.terminal }]
        nextSource := t.nextSource + 1 }

/-- A change of a job that keeps its kind and id. -/
def updateJob (kind : SourceKind) (id : String) (set : Job → Job) : Tables :=
  match t.jobs.find? fun job => job.kind == kind && job.id == id with
  | none => t
  | some old =>
      let new : Job := { set old with kind, id }
      { t with
        jobs := Table.update t.jobs (fun job => job.kind == kind && job.id == id) fun _ => new
        sources :=
          if old.marks new then
            Table.update t.sources (fun source =>
              source.kind == kind && source.jobId == id) fun source => { source with ready := true }
          else t.sources }

/-- A job is removed, with its source and what was observed of it. -/
def removeJob (kind : SourceKind) (id : String) : Tables :=
  let sources := t.sources.filter fun source => !(source.kind == kind && source.jobId == id)
  { t with
    jobs := t.jobs.filter fun job => !(job.kind == kind && job.id == id)
    sources
    observed := t.observed.filter fun entry => sources.any fun source => source.id == entry.1 }

def addPlan (id : String) : Tables :=
  if t.plans.contains id then t else { t with plans := t.plans ++ [id] }

def removePlan (id : String) : Tables :=
  { t with plans := t.plans.filter (· != id),
           subscriptions := t.subscriptions.filter (·.planId != id) }

end Tables

/-! ## Runs -/

/-- The tables and the deliveries that were handed out. -/
structure System where
  tables : Tables := {}
  granted : List Tables.Delivery := []

namespace System

/-- An operation of the store, a sender that finishes the `k`-th delivery that was handed
out, or a write of the rest of the program. -/
inductive Label where
  | saveChannel (value : ChannelInput) (channelId : Option Nat) (now : Nat)
  | deleteChannel (channelId : Nat)
  | saveSubscription (planId : String) (value : SubscriptionInput)
  | reconcile (limit now : Nat)
  | test (channelId now : Nat)
  | claim (now : Nat)
  | finish (k : Nat) (result : DeliveryResult) (now : Nat)
  | retry (deliveryId now : Nat)
  | maintenance (now : Nat)
  | addJob (job : Job)
  | updateJob (kind : SourceKind) (id : String) (set : Job → Job)
  | removeJob (kind : SourceKind) (id : String)
  | addPlan (id : String)
  | removePlan (id : String)

variable (s : System)

/-- A transaction: what throws leaves no trace. -/
def commit (result : Except AppError Tables) : System :=
  { s with tables := result.toOption.getD s.tables }

def finish (k : Nat) (result : DeliveryResult) (now : Nat) : System :=
  match s.granted[k]? with
  | some delivery => { s with tables := s.tables.finish delivery result now }
  | none => s

def step : Label → System
  | .saveChannel value channelId now => s.commit (s.tables.saveChannel value channelId now)
  | .deleteChannel channelId => s.commit (s.tables.deleteChannel channelId)
  | .saveSubscription planId value => s.commit (s.tables.saveSubscription planId value)
  | .reconcile limit now => { s with tables := s.tables.reconcile limit now }
  | .test channelId now => s.commit (s.tables.test channelId now)
  | .claim now =>
      { tables := (s.tables.claim now).1, granted := s.granted ++ (s.tables.claim now).2.toList }
  | .finish k result now => s.finish k result now
  | .retry deliveryId now => s.commit (s.tables.retry deliveryId now)
  | .maintenance now => { s with tables := s.tables.maintenance now }
  | .addJob job => { s with tables := s.tables.addJob job }
  | .updateJob kind id set => { s with tables := s.tables.updateJob kind id set }
  | .removeJob kind id => { s with tables := s.tables.removeJob kind id }
  | .addPlan id => { s with tables := s.tables.addPlan id }
  | .removePlan id => { s with tables := s.tables.removePlan id }

/-- The system after a run. -/
def run (labels : List Label) : System := labels.foldl step {}

end System

end Pluton.Notifications
