-- SUMMARY: Replica destinations keep their owner, are initialised once and kept for their jobs.
import Pluton.Replication.Jobs

/-!
# Destinations

A call changes one of the two tables. Destinations are only added, or moved from one
state to another: uninitialized, initializing, ready, and detached from any of them.
-/
namespace Pluton.Replication

open Except Namespaces ManagedReplicationStore

/-! ## What a call does to the destinations -/

/-- Neither repository lies at or under the other. -/
def Apart (a b : ManagedReplicationDestination) : Prop :=
  a.destinationAuthority = b.destinationAuthority →
    a.destinationPrefix ≠ b.destinationPrefix ∧
      Js.startsWith (a.destinationPrefix ++ "/") b.destinationPrefix = false ∧
      Js.startsWith (b.destinationPrefix ++ "/") a.destinationPrefix = false

/-- What stays of a destination. -/
def ownerOf (row : ManagedReplicationDestination) : Destination :=
  { row.toDestination with initState := .uninitialized }

def newDestination (binding : Destination) (now : Nat) : ManagedReplicationDestination :=
  { { binding with initState := .uninitialized } with createdAt := now }

def inState (fingerprint : String) (state : InitState) (row : ManagedReplicationDestination) :
    Bool :=
  row.fingerprint == fingerprint && row.initState == state

def isClaim : Event → Bool
  | .claimed _ _ => true
  | _ => false

inductive DestinationsChange (db db' : Tables) (events : List Event) : Prop where
  | same (hdestinations : db'.destinations = db.destinations)
      (hevents : ∀ event ∈ events, isClaim event = true)
  | reserved (binding : Destination) (now : Nat)
      (hnew : ∀ row ∈ db.destinations, row.fingerprint ≠ binding.fingerprint)
      (hapart : ∀ row ∈ db.destinations, Apart row (newDestination binding now))
      (hdestinations : db'.destinations = db.destinations ++ [newDestination binding now])
      (hevents : events = []) (hjobs : db'.jobs = db.jobs)
  | begun (fingerprint : String)
      (hdestinations : db'.destinations =
        Table.update db.destinations (inState fingerprint .uninitialized) beginRow)
      (hevents : events = recorded (db.destinations.any (inState fingerprint .uninitialized))
        (.begun fingerprint))
      (hjobs : db'.jobs = db.jobs)
  | finalized (fingerprint repositoryId : String) (hfull : fullId repositoryId = true)
      (hdestinations : db'.destinations =
        Table.update db.destinations (inState fingerprint .initializing) (readyRow repositoryId))
      (hevents : events = recorded (db.destinations.any (inState fingerprint .initializing))
        (.finalized fingerprint repositoryId))
      (hjobs : db'.jobs = db.jobs)
  | detached (planId : String) (cond : ManagedReplicationDestination → Bool)
      (hplan : ∀ row, cond row = true → row.planId = planId)
      (hidle : ∀ job ∈ db.jobs, job.binding.planId = planId → job.status.blocking = false)
      (hdestinations : db'.destinations = Table.update db.destinations cond detachRow)
      (hevents : events = []) (hjobs : db'.jobs = db.jobs)

variable {db db' : Tables} {events : List Event} {fingerprint : String}

theorem apart_of_destinationsOverlap {row : ManagedReplicationDestination} {binding : Destination}
    {now : Nat} (h : destinationsOverlap row.toDestination binding = false) :
    Apart row (newDestination binding now) := by
  intro hauthority
  change row.destinationAuthority = binding.destinationAuthority at hauthority
  simp only [destinationsOverlap, hauthority, beq_self_eq_true, Bool.true_and, Bool.or_eq_false_iff,
    beq_eq_false_iff_ne, ne_eq] at h
  exact ⟨h.1.1, h.2, h.1.2⟩

theorem reserveDestination_change {binding : Destination} {planOwned exported : Except Failure Unit}
    {now : Nat}
    (h : ManagedReplicationStore.reserveDestination db binding planOwned exported now = .ok db') :
    DestinationsChange db db' [] := by
  have hjobs : db'.jobs = db.jobs := reserveDestination_jobs h
  unfold Pluton.Replication.ManagedReplicationStore.reserveDestination at h
  simp only [bind_eq_ok] at h
  obtain ⟨_, -, _, -, h⟩ := h
  split at h
  · simp only [bind_eq_ok, pure_eq_ok] at h
    obtain ⟨_, -, rfl⟩ := h
    exact .same rfl (by simp)
  · next hnone =>
      unfold ManagedReplicationStore.insertDestination at h
      simp only [bind_eq_ok, refuseIf_eq_ok, pure_eq_ok, List.any_eq_false] at h
      obtain ⟨_, -, _, hapart, _, -, rfl⟩ := h
      refine .reserved binding now ?_ (fun row hrow => ?_) rfl rfl rfl
      · simpa [getDestination] using hnone
      · exact apart_of_destinationsOverlap (Bool.eq_false_iff.mpr (hapart row hrow))

theorem run_destinations {call : Call} (h : call.run db = .ok (db', events)) :
    DestinationsChange db db' events := by
  cases call with
  | reserveDestination binding planOwned exported now =>
      obtain ⟨next, hnext, heq⟩ := map_eq_ok.mp h
      cases heq
      exact reserveDestination_change hnext
  | enqueue input sourceBound now =>
      obtain ⟨next, hnext, heq⟩ := map_eq_ok.mp h
      cases heq
      -- whatever becomes of the jobs, the destinations stay
      cases enqueue_change hnext with
      | same hjobs hevents =>
          unfold enqueue at hnext
          simp only [bind_eq_ok] at hnext
          obtain ⟨_, -, _, -, _, -, hnext⟩ := hnext
          split at hnext
          · simp only [bind_eq_ok, pure_eq_ok] at hnext
            obtain ⟨_, -, rfl⟩ := hnext
            exact .same rfl (by simp)
          · unfold insertJob at hnext
            simp only [bind_eq_ok, pure_eq_ok] at hnext
            obtain ⟨_, -, rfl⟩ := hnext
            exact .same rfl (by simp)
      | added input now hnew hreserved hjobs hevents hdestinations =>
          exact .same hdestinations (by simp)
      | claimed id token now hfree hjobs hevents hdestinations =>
          exact .same hdestinations (by simp)
      | moved cond set hmoved hjobs hevents hdestinations => exact .same hdestinations (by simp)
  | claim id ownerToken now =>
      obtain ⟨reply, hreply, heq⟩ := map_eq_ok.mp h
      cases heq
      refine .same ?_ ?_
      · unfold claim at hreply
        simp only [bind_eq_ok] at hreply
        obtain ⟨_, -, hreply⟩ := hreply
        split at hreply <;> cases hreply <;> rfl
      · intro event hevent
        unfold recorded at hevent
        split at hevent
        · rw [List.mem_singleton.mp hevent]
          rfl
        · cases hevent
  | beginInitialization fingerprint ownerToken =>
      cases h
      unfold beginInitialization
      split
      · exact .begun fingerprint rfl rfl rfl
      · exact .same rfl (by simp [recorded])
  | finalizeInitialization fingerprint ownerToken repositoryId =>
      cases h
      unfold finalizeInitialization
      split
      · next hfull =>
          exact .finalized fingerprint repositoryId (Bool.and_eq_true_iff.mp hfull).1 rfl rfl rfl
      · exact .same rfl (by simp [recorded])
  | finish id ownerToken result now =>
      obtain ⟨reply, hreply, heq⟩ := map_eq_ok.mp h
      cases heq
      unfold finish at hreply
      simp only [bind_eq_ok, pure_eq_ok] at hreply
      obtain ⟨_, -, _, -, rfl⟩ := hreply
      exact .same rfl (by simp)
  | retry id now =>
      obtain ⟨reply, hreply, heq⟩ := map_eq_ok.mp h
      cases heq
      unfold retry at hreply
      simp only [bind_eq_ok, pure_eq_ok] at hreply
      obtain ⟨_, -, rfl⟩ := hreply
      exact .same rfl (by simp)
  | cancelPending id now =>
      cases h
      exact .same rfl (by simp)
  | markInterrupted now =>
      cases h
      exact .same rfl (by simp)
  | detach planId replicationId =>
      obtain ⟨next, hnext, heq⟩ := map_eq_ok.mp h
      cases heq
      unfold detach at hnext
      simp only [bind_eq_ok, refuseIf_eq_ok, pure_eq_ok, hasBlockingPlan,
        List.any_eq_false, Bool.and_eq_true, beq_iff_eq, not_and, Bool.not_eq_true] at hnext
      obtain ⟨_, hidle, rfl⟩ := hnext
      refine .detached planId _ ?_ hidle rfl rfl rfl
      intro row hrow
      exact beq_iff_eq.mp (Bool.and_eq_true_iff.mp hrow).1

/-! ## The invariant -/

/-- How often the initialisation of a destination was begun. -/
def begins (log : List Event) (fingerprint : String) : Nat := log.count (.begun fingerprint)

/-- The repository ids recorded for a destination. -/
def finals (log : List Event) (fingerprint : String) : List String :=
  log.filterMap fun
    | .finalized other repositoryId => if other == fingerprint then some repositoryId else none
    | _ => none

/-- What the log says of a destination in its state. -/
structure Initialised (log : List Event) (row : ManagedReplicationDestination) : Prop where
  begun : row.initState = .uninitialized → begins log row.fingerprint = 0
  pending : row.initState = .uninitialized ∨ row.initState = .initializing →
    finals log row.fingerprint = []
  ready : row.initState = .ready → ∃ repositoryId, row.actualRepositoryId = some repositoryId ∧
    fullId repositoryId = true ∧ finals log row.fingerprint = [repositoryId]
  blank : row.initState = .uninitialized ∨ row.initState = .initializing →
    row.actualRepositoryId = none

/-- The destination of a job is reserved for its plan, and kept while the job blocks it. -/
def Reserved (db : Tables) (job : ManagedReplicationJob) : Prop :=
  ∃ row ∈ db.destinations, row.fingerprint = job.binding.destinationFingerprint ∧
    row.planId = job.binding.planId ∧
    (job.status.blocking = true → row.initState ≠ .detached)

/-- The fingerprint an event is about. -/
def Event.about : Event → Option String
  | claimed _ _ => none
  | begun fingerprint => some fingerprint
  | finalized fingerprint _ => some fingerprint

structure Owned (w : World) : Prop where
  fingerprints : (w.db.destinations.map fun row => row.fingerprint).Nodup
  apart : w.db.destinations.Pairwise Apart
  once : ∀ fingerprint, begins w.log fingerprint ≤ 1
  initialised : ∀ row ∈ w.db.destinations, Initialised w.log row
  known : ∀ event ∈ w.log, ∀ fingerprint ∈ event.about, ∃ row ∈ w.db.destinations,
    row.fingerprint = fingerprint
  reserved : ∀ job ∈ w.db.jobs, Reserved w.db job

theorem begins_append {log log' : List Event} :
    begins (log ++ log') fingerprint = begins log fingerprint + begins log' fingerprint :=
  List.count_append

theorem finals_append {log log' : List Event} :
    finals (log ++ log') fingerprint = finals log fingerprint ++ finals log' fingerprint :=
  List.filterMap_append

theorem begins_eq_zero {log : List Event} (h : ∀ event ∈ log, event.about ≠ some fingerprint) :
    begins log fingerprint = 0 := by
  unfold begins
  rw [List.count_eq_zero]
  exact fun hmem => h _ hmem rfl

theorem finals_eq_nil {log : List Event} (h : ∀ event ∈ log, event.about ≠ some fingerprint) :
    finals log fingerprint = [] := by
  unfold finals
  rw [List.filterMap_eq_nil_iff]
  intro event hevent
  cases event with
  | claimed id token => rfl
  | begun other => rfl
  | finalized other repositoryId =>
      have hne : other ≠ fingerprint := fun heq => h _ hevent (heq ▸ rfl)
      simp [hne]

theorem owned_start : Owned .start where
  fingerprints := List.nodup_nil
  apart := List.Pairwise.nil
  once _ := Nat.zero_le 1
  initialised _ h := by cases h
  known _ h := by cases h
  reserved _ h := by cases h

/-! ## Updates keep the owner -/

@[simp] theorem ownerOf_beginRow (row : ManagedReplicationDestination) :
    ownerOf (beginRow row) = ownerOf row := rfl

@[simp] theorem ownerOf_readyRow (repositoryId : String) (row : ManagedReplicationDestination) :
    ownerOf (readyRow repositoryId row) = ownerOf row := rfl

@[simp] theorem ownerOf_detachRow (row : ManagedReplicationDestination) :
    ownerOf (detachRow row) = ownerOf row := rfl

section

variable {rows : List ManagedReplicationDestination} {cond : ManagedReplicationDestination → Bool}
  {set : ManagedReplicationDestination → ManagedReplicationDestination}

theorem fingerprint_of_owner {a b : ManagedReplicationDestination} (h : ownerOf a = ownerOf b) :
    a.fingerprint = b.fingerprint := (congrArg Destination.fingerprint h :)

theorem apart_of_owner {a a' b b' : ManagedReplicationDestination} (ha : ownerOf a = ownerOf a')
    (hb : ownerOf b = ownerOf b') (h : Apart a b) : Apart a' b' := by
  have haAuthority : a.destinationAuthority = a'.destinationAuthority :=
    (congrArg Destination.destinationAuthority ha :)
  have hbAuthority : b.destinationAuthority = b'.destinationAuthority :=
    (congrArg Destination.destinationAuthority hb :)
  have haPrefix : a.destinationPrefix = a'.destinationPrefix :=
    (congrArg Destination.destinationPrefix ha :)
  have hbPrefix : b.destinationPrefix = b'.destinationPrefix :=
    (congrArg Destination.destinationPrefix hb :)
  unfold Apart at h ⊢
  rw [← haAuthority, ← hbAuthority, ← haPrefix, ← hbPrefix]
  exact h

/-- A row of a table with distinct fingerprints is the only one with its fingerprint. -/
theorem row_unique (hfingerprints : (rows.map fun row => row.fingerprint).Nodup)
    {a b : ManagedReplicationDestination} (ha : a ∈ rows) (hb : b ∈ rows)
    (h : a.fingerprint = b.fingerprint) : a = b :=
  List.inj_on_of_nodup_map hfingerprints ha hb h

theorem fingerprints_update (hset : ∀ row, ownerOf (set row) = ownerOf row)
    (h : (rows.map fun row => row.fingerprint).Nodup) :
    ((Table.update rows cond set).map fun row => row.fingerprint).Nodup :=
  Table.nodup_update (fun row => fingerprint_of_owner (hset row)) h

theorem apart_update (hset : ∀ row, ownerOf (set row) = ownerOf row) (h : rows.Pairwise Apart) :
    (Table.update rows cond set).Pairwise Apart := by
  have hrow : ∀ row, ownerOf row = ownerOf (if cond row then set row else row) := by
    intro row
    split
    · exact (hset row).symm
    · rfl
  unfold Table.update
  rw [List.pairwise_map]
  exact h.imp fun hapart => apart_of_owner (hrow _) (hrow _) hapart

theorem known_update (hset : ∀ row, ownerOf (set row) = ownerOf row) {fingerprint : String}
    (h : ∃ row ∈ rows, row.fingerprint = fingerprint) :
    ∃ row ∈ Table.update rows cond set, row.fingerprint = fingerprint := by
  obtain ⟨row, hrow, rfl⟩ := h
  refine ⟨_, Table.mem_update.mpr ⟨row, hrow, rfl⟩, ?_⟩
  split
  · exact fingerprint_of_owner (hset row)
  · rfl

end

/-! ## Steps -/

section

variable {w : World} {row : ManagedReplicationDestination}
  {cond : ManagedReplicationDestination → Bool} {state : InitState}

theorem inState_iff {fingerprint : String} :
    inState fingerprint state row = true ↔
    row.fingerprint = fingerprint ∧ row.initState = state := by
  simp [inState]

theorem Initialised.append {log log' : List Event} (h : Initialised log row)
    (hother : ∀ event ∈ log', event.about ≠ some row.fingerprint) :
    Initialised (log ++ log') row := by
  have hbegins : begins (log ++ log') row.fingerprint = begins log row.fingerprint := by
    rw [begins_append, begins_eq_zero hother, Nat.add_zero]
  have hfinals : finals (log ++ log') row.fingerprint = finals log row.fingerprint := by
    rw [finals_append, finals_eq_nil hother, List.append_nil]
  exact { begun := hbegins ▸ h.begun, pending := hfinals ▸ h.pending,
          ready := hfinals ▸ h.ready, blank := h.blank }

/-- An event that was not recorded, or is about another destination. -/
theorem about_recorded {changed : Bool} {event : Event} {fingerprint other : String}
    (habout : event.about = some fingerprint) (h : fingerprint ≠ other ∨ changed = false) :
    ∀ event' ∈ recorded changed event, event'.about ≠ some other := by
  intro event' hmem
  unfold recorded at hmem
  split at hmem
  · next hchanged =>
      rw [List.mem_singleton.mp hmem, habout]
      rcases h with hne | hfalse
      · simpa using hne
      · rw [hfalse] at hchanged
        cases hchanged
  · cases hmem

/-- When a row with the fingerprint is in another state, no row is in the state. -/
theorem any_inState_eq_false (hw : Owned w) {fingerprint : String} (hrow : row ∈ w.db.destinations)
    (hsame : row.fingerprint = fingerprint) (hstate : row.initState ≠ state) :
    w.db.destinations.any (inState fingerprint state) = false := by
  rw [List.any_eq_false]
  intro other hother hin
  obtain ⟨hfingerprint, hin⟩ := inState_iff.mp hin
  have := row_unique hw.fingerprints hother hrow (hfingerprint.trans hsame.symm)
  exact hstate (this ▸ hin)

/-- What an update of the destinations has to show of the log. -/
theorem Owned.updated (hw : Owned w)
    {set : ManagedReplicationDestination → ManagedReplicationDestination} {events : List Event}
    (hset : ∀ row, ownerOf (set row) = ownerOf row)
    (hdestinations : db'.destinations = Table.update w.db.destinations cond set)
    (hknown : ∀ event ∈ events, ∀ fingerprint ∈ event.about,
      ∃ row ∈ w.db.destinations, row.fingerprint = fingerprint)
    (honce : ∀ fingerprint, begins (w.log ++ events) fingerprint ≤ 1)
    (hinit : ∀ row ∈ w.db.destinations,
      Initialised (w.log ++ events) (if cond row then set row else row))
    (hreserved : ∀ job ∈ db'.jobs, Reserved db' job) : Owned ⟨db', w.log ++ events⟩ where
  fingerprints := hdestinations ▸ fingerprints_update hset hw.fingerprints
  apart := hdestinations ▸ apart_update hset hw.apart
  once := honce
  initialised row hrow := by
    change row ∈ db'.destinations at hrow
    rw [hdestinations] at hrow
    obtain ⟨old, hold, rfl⟩ := Table.mem_update.mp hrow
    exact hinit old hold
  known event hevent fingerprint habout := by
    change ∃ row ∈ db'.destinations, row.fingerprint = fingerprint
    rw [hdestinations]
    apply known_update hset
    rcases List.mem_append.mp hevent with hold | hnew
    · exact hw.known event hold fingerprint habout
    · exact hknown event hnew fingerprint habout
  reserved := hreserved

theorem known_recorded {fingerprint : String} {event : Event}
    (habout : event.about = some fingerprint) :
    ∀ event' ∈ recorded (w.db.destinations.any (inState fingerprint state)) event,
      ∀ other ∈ event'.about,
      ∃ row ∈ w.db.destinations, row.fingerprint = other := by
  intro event' hmem other hother
  unfold recorded at hmem
  split at hmem
  · next hany =>
      rw [List.mem_singleton.mp hmem, habout] at hother
      obtain rfl : fingerprint = other := Option.some.inj hother
      obtain ⟨row, hrow, hin⟩ := List.any_eq_true.mp hany
      exact ⟨row, hrow, (inState_iff.mp hin).1⟩
  · cases hmem

/-- The event that a state is left is recorded for the row in it, and no other row. -/
theorem Owned.initialised_recorded (hw : Owned w) {fingerprint : String} {event : Event}
    (hrow : row ∈ w.db.destinations) (habout : event.about = some fingerprint)
    (hin : ¬inState fingerprint state row = true) :
    Initialised (w.log ++ recorded (w.db.destinations.any (inState fingerprint state)) event)
      row := by
  refine (hw.initialised row hrow).append (about_recorded habout ?_)
  by_cases hsame : fingerprint = row.fingerprint
  · refine .inr (any_inState_eq_false hw hrow hsame.symm ?_)
    exact fun hstate => hin (inState_iff.mpr ⟨hsame.symm, hstate⟩)
  · exact .inl hsame

theorem Owned.begun (hw : Owned w) {fingerprint : String}
    (hdestinations : db'.destinations =
      Table.update w.db.destinations (inState fingerprint .uninitialized) beginRow)
    (hreserved : ∀ job ∈ db'.jobs, Reserved db' job) :
    Owned ⟨db', w.log ++ recorded (w.db.destinations.any (inState fingerprint .uninitialized))
      (.begun fingerprint)⟩ := by
  refine hw.updated ownerOf_beginRow hdestinations (known_recorded rfl) ?_ ?_ hreserved
  · intro other
    by_cases hany : fingerprint ≠ other ∨
      w.db.destinations.any (inState fingerprint .uninitialized) = false
    · rw [begins_append, begins_eq_zero (about_recorded rfl hany), Nat.add_zero]
      exact hw.once other
    · simp only [not_or, not_not, Bool.not_eq_false] at hany
      obtain ⟨rfl, hany⟩ := hany
      obtain ⟨row, hrow, hin⟩ := List.any_eq_true.mp hany
      obtain ⟨rfl, hstate⟩ := inState_iff.mp hin
      have hzero := (hw.initialised row hrow).begun hstate
      rw [begins_append, hzero, hany]
      simp [begins, recorded]
  · intro row hrow
    have hinit := hw.initialised row hrow
    split
    · next hin =>
        obtain ⟨rfl, hstate⟩ := inState_iff.mp hin
        refine { begun := (fun h => by cases h), pending := fun _ => ?_,
                 ready := (fun h => by cases h),
                 blank := fun _ => hinit.blank (.inl hstate) }
        change finals _ row.fingerprint = []
        rw [finals_append, hinit.pending (.inl hstate)]
        unfold recorded
        split <;> rfl
    · next hin => exact hw.initialised_recorded hrow rfl hin

theorem Owned.finalized (hw : Owned w) {fingerprint repositoryId : String}
    (hfull : fullId repositoryId = true) (hdestinations : db'.destinations =
      Table.update w.db.destinations (inState fingerprint .initializing) (readyRow repositoryId))
    (hreserved : ∀ job ∈ db'.jobs, Reserved db' job) :
    Owned ⟨db', w.log ++ recorded (w.db.destinations.any (inState fingerprint .initializing))
      (.finalized fingerprint repositoryId)⟩ := by
  refine hw.updated (ownerOf_readyRow repositoryId) hdestinations
    (known_recorded rfl) ?_ ?_ hreserved
  · intro other
    have hnone : begins (recorded (w.db.destinations.any (inState fingerprint .initializing))
        (.finalized fingerprint repositoryId)) other = 0 := by
      unfold recorded
      split <;> simp [begins]
    rw [begins_append, hnone, Nat.add_zero]
    exact hw.once other
  · intro row hrow
    have hinit := hw.initialised row hrow
    split
    · next hin =>
        have hany : w.db.destinations.any (inState fingerprint .initializing) = true :=
          List.any_eq_true.mpr ⟨row, hrow, hin⟩
        obtain ⟨rfl, hstate⟩ := inState_iff.mp hin
        refine { begun := (fun h => by cases h), pending := (fun h => by
          rcases h with h | h <;> cases h),
                 blank := (fun h => by rcases h with h | h <;> cases h),
                 ready := fun _ => ⟨repositoryId, rfl, hfull, ?_⟩ }
        change finals _ row.fingerprint = [repositoryId]
        rw [finals_append, hinit.pending (.inr hstate), hany]
        simp [finals, recorded]
    · next hin => exact hw.initialised_recorded hrow rfl hin

theorem Owned.detached (hw : Owned w)
    (hdestinations : db'.destinations = Table.update w.db.destinations cond detachRow)
    (hreserved : ∀ job ∈ db'.jobs, Reserved db' job) : Owned ⟨db', w.log ++ []⟩ := by
  refine hw.updated ownerOf_detachRow hdestinations (by simp) ?_ ?_ hreserved
  · rw [List.append_nil]
    exact hw.once
  · intro row hrow
    rw [List.append_nil]
    split
    · exact { begun := (fun h => by cases h), pending := (fun h => by
        rcases h with h | h <;> cases h),
              blank := (fun h => by rcases h with h | h <;> cases h),
              ready := (fun h => by cases h) }
    · exact hw.initialised row hrow

theorem Owned.added (hw : Owned w) {binding : Destination} {now : Nat}
    (hnew : ∀ row ∈ w.db.destinations, row.fingerprint ≠ binding.fingerprint)
    (hapart : ∀ row ∈ w.db.destinations, Apart row (newDestination binding now))
    (hdestinations : db'.destinations = w.db.destinations ++ [newDestination binding now])
    (hreserved : ∀ job ∈ db'.jobs, Reserved db' job) : Owned ⟨db', w.log ++ []⟩ := by
  have hother : ∀ event ∈ w.log, event.about ≠ some binding.fingerprint := by
    intro event hevent habout
    obtain ⟨row, hrow, hsame⟩ := hw.known event hevent _ habout
    exact hnew row hrow hsame
  rw [List.append_nil]
  refine { fingerprints := ?_, apart := ?_, once := hw.once, initialised := ?_, known := ?_,
           reserved := hreserved }
  all_goals
    dsimp only
    rw [hdestinations]
  · rw [List.map_append, List.map_singleton, List.nodup_append]
    refine ⟨hw.fingerprints, List.nodup_singleton _, ?_⟩
    intro fingerprint hfingerprint other hother' heq
    obtain ⟨row, hrow, rfl⟩ := List.mem_map.mp hfingerprint
    exact hnew row hrow (heq.trans (List.mem_singleton.mp hother'))
  · rw [List.pairwise_append]
    refine ⟨hw.apart, List.pairwise_singleton _ _, ?_⟩
    intro row hrow other hother'
    rw [List.mem_singleton.mp hother']
    exact hapart row hrow
  · intro row hrow
    rcases List.mem_append.mp hrow with hold | hadded
    · exact hw.initialised row hold
    · obtain rfl := List.mem_singleton.mp hadded
      exact { begun := fun _ => begins_eq_zero hother, pending := fun _ => finals_eq_nil hother,
              blank := fun _ => rfl,
              ready := (fun h => by cases h) }
  · intro event hevent fingerprint habout
    obtain ⟨row, hrow, hsame⟩ := hw.known event hevent fingerprint habout
    exact ⟨row, List.mem_append_left _ hrow, hsame⟩

theorem Owned.same (hw : Owned w) (hdestinations : db'.destinations = w.db.destinations)
    (hevents : ∀ event ∈ events, isClaim event = true)
    (hreserved : ∀ job ∈ db'.jobs, Reserved db' job) :
    Owned ⟨db', w.log ++ events⟩ := by
  have habout : ∀ event ∈ events, event.about = none := by
    intro event hevent
    have hclaim := hevents event hevent
    cases event with
    | claimed id token => rfl
    | begun fingerprint => cases hclaim
    | finalized fingerprint repositoryId => cases hclaim
  have hother : ∀ fingerprint, ∀ event ∈ events, event.about ≠ some fingerprint := by
    intro fingerprint event hevent
    rw [habout event hevent]
    exact fun h => by cases h
  refine { fingerprints := ?_, apart := ?_, once := ?_, initialised := ?_, known := ?_,
           reserved := hreserved }
  · exact hdestinations ▸ hw.fingerprints
  · exact hdestinations ▸ hw.apart
  · intro fingerprint
    rw [begins_append, begins_eq_zero (hother fingerprint), Nat.add_zero]
    exact hw.once fingerprint
  · intro row hrow
    change row ∈ db'.destinations at hrow
    rw [hdestinations] at hrow
    exact (hw.initialised row hrow).append (hother row.fingerprint)
  · intro event hevent fingerprint hfingerprint
    change ∃ row ∈ db'.destinations, row.fingerprint = fingerprint
    rw [hdestinations]
    rcases List.mem_append.mp hevent with hold | hnew
    · exact hw.known event hold fingerprint hfingerprint
    · rw [habout event hnew] at hfingerprint
      cases hfingerprint

/-! ## Jobs and their destinations -/

theorem getDestination_of_mem (hw : Owned w) (hrow : row ∈ w.db.destinations) :
    getDestination w.db row.fingerprint = some row :=
  Table.find?_key hw.fingerprints hrow

/-- The jobs of a change that leaves the destinations alone keep theirs. -/
theorem reserved_of_jobs (hw : Owned w) (hjobs : JobsChange w.db db' events)
    (hdestinations : db'.destinations = w.db.destinations) :
    ∀ job ∈ db'.jobs, Reserved db' job := by
  intro job hjob
  unfold Reserved
  rw [hdestinations]
  cases hjobs with
  | same hjobs hevents => exact hw.reserved job (hjobs ▸ hjob)
  | added input now hnew hreserved hjobs hevents _ =>
      rw [hjobs] at hjob
      rcases List.mem_append.mp hjob with hold | hadded
      · exact hw.reserved job hold
      · obtain rfl := List.mem_singleton.mp hadded
        cases hrow : getDestination w.db input.binding.destinationFingerprint with
        | none =>
            rw [hrow] at hreserved
            cases hreserved
        | some row =>
            simp only [hrow, unreserved, Bool.or_eq_false_iff, bne_eq_false_iff_eq,
              beq_eq_false_iff_ne] at hreserved
            refine ⟨row, List.mem_of_find?_eq_some hrow, ?_, hreserved.1.1, fun _ => hreserved.2⟩
            have hfound := List.find?_some hrow
            exact beq_iff_eq.mp hfound
  | claimed id token now hfree hjobs hevents _ =>
      rw [hjobs] at hjob
      obtain ⟨old, hold, rfl⟩ := Table.mem_update.mp hjob
      obtain ⟨row, hrow, hsame, hplan, hkept⟩ := hw.reserved old hold
      split
      · next hpending =>
          refine ⟨row, hrow, hsame, hplan, fun _ => hkept ?_⟩
          rw [(pendingJob_iff.mp hpending).2]
          rfl
      · exact ⟨row, hrow, hsame, hplan, hkept⟩
  | moved cond set hmoved hjobs hevents _ =>
      rw [hjobs] at hjob
      obtain ⟨old, hold, rfl⟩ := Table.mem_update.mp hjob
      obtain ⟨row, hrow, hsame, hplan, hkept⟩ := hw.reserved old hold
      split
      · next hcond =>
          have hmove := hmoved old hold hcond
          rw [hmove.same]
          refine ⟨row, hrow, hsame, hplan, fun hblocking => ?_⟩
          rcases hmove.blocking hblocking with hbefore | hreserved
          · exact hkept hbefore
          · exact hreserved row (hsame ▸ getDestination_of_mem hw hrow)
      · exact ⟨row, hrow, hsame, hplan, hkept⟩

/-- Destinations that are moved and not given up under a job stay reserved for it. -/
theorem reserved_of_update (hw : Owned w)
    {set : ManagedReplicationDestination → ManagedReplicationDestination}
    (hset : ∀ row, ownerOf (set row) = ownerOf row)
    (hkept : ∀ row ∈ w.db.destinations, cond row = true → (set row).initState ≠ .detached ∨
      ∀ job ∈ w.db.jobs, job.binding.planId = row.planId → job.status.blocking = false)
    (hdestinations : db'.destinations = Table.update w.db.destinations cond set)
    (hjobs : db'.jobs = w.db.jobs) :
    ∀ job ∈ db'.jobs, Reserved db' job := by
  intro job hjob
  rw [hjobs] at hjob
  obtain ⟨row, hrow, hsame, hplan, hbefore⟩ := hw.reserved job hjob
  unfold Reserved
  rw [hdestinations]
  refine ⟨_, Table.mem_update.mpr ⟨row, hrow, rfl⟩, ?_⟩
  split
  · next hcond =>
      refine ⟨(fingerprint_of_owner (hset row)).trans hsame, ?_, fun hblocking => ?_⟩
      · exact (congrArg Destination.planId (hset row) :).trans hplan
      · rcases hkept row hrow hcond with hstate | hidle
        · exact hstate
        · rw [hidle job hjob hplan.symm] at hblocking
          cases hblocking
  · exact ⟨hsame, hplan, hbefore⟩

theorem Owned.step (hclaimed : Claimed w) (hw : Owned w) (call : Call) : Owned (w.step call) := by
  unfold World.step
  cases hrun : call.run w.db with
  | error failure => exact hw
  | ok result =>
      obtain ⟨db', events⟩ := result
      dsimp only
      cases run_destinations hrun with
      | same hdestinations hevents =>
          exact hw.same hdestinations hevents
            (reserved_of_jobs hw (run_change hclaimed.ids hrun) hdestinations)
      | reserved binding now hnew hapart hdestinations hevents hjobs =>
          subst hevents
          refine hw.added hnew hapart hdestinations ?_
          intro job hjob
          obtain ⟨row, hrow, hreserved⟩ := hw.reserved job (hjobs ▸ hjob)
          exact ⟨row, hdestinations ▸ List.mem_append_left _ hrow, hreserved⟩
      | begun fingerprint hdestinations hevents hjobs =>
          subst hevents
          refine hw.begun hdestinations
            (reserved_of_update hw ownerOf_beginRow ?_ hdestinations hjobs)
          exact fun row _ _ => .inl fun h => by cases h
      | finalized fingerprint repositoryId hfull hdestinations hevents hjobs =>
          subst hevents
          refine hw.finalized hfull hdestinations
            (reserved_of_update hw (ownerOf_readyRow repositoryId) ?_ hdestinations hjobs)
          exact fun row _ _ => .inl fun h => by cases h
      | detached planId cond hplan hidle hdestinations hevents hjobs =>
          subst hevents
          refine hw.detached hdestinations
            (reserved_of_update hw ownerOf_detachRow ?_ hdestinations hjobs)
          exact fun row _ hcond => .inr fun job hjob hsame =>
            hidle job hjob (hsame.trans (hplan row hcond))

end

theorem owned_after (calls : List Call) : Owned (World.after calls) := by
  induction calls using List.reverseRecOn with
  | nil => exact owned_start
  | append_singleton calls call ih =>
      rw [after_concat]
      exact Owned.step (claimed_after calls) ih call

/-- A destination that was reserved stays, with the owner it was reserved for. -/
theorem owner_step {w : World} {row : ManagedReplicationDestination}
    (hrow : row ∈ w.db.destinations) (call : Call) :
    ∃ row' ∈ (w.step call).db.destinations, ownerOf row' = ownerOf row := by
  unfold World.step
  cases hrun : call.run w.db with
  | error failure => exact ⟨row, hrow, rfl⟩
  | ok result =>
      obtain ⟨db', events⟩ := result
      dsimp only
      have hupdate : ∀ (cond : ManagedReplicationDestination → Bool)
          (set : ManagedReplicationDestination → ManagedReplicationDestination),
          (∀ row, ownerOf (set row) = ownerOf row) →
            ∃ row' ∈ Table.update w.db.destinations cond set, ownerOf row' = ownerOf row := by
        intro cond set hset
        refine ⟨_, Table.mem_update.mpr ⟨row, hrow, rfl⟩, ?_⟩
        split
        · exact hset row
        · rfl
      cases run_destinations hrun with
      | same hdestinations hevents => exact ⟨row, hdestinations ▸ hrow, rfl⟩
      | reserved binding now hnew hapart hdestinations hevents hjobs =>
          exact ⟨row, hdestinations ▸ List.mem_append_left _ hrow, rfl⟩
      | begun fingerprint hdestinations hevents hjobs =>
          rw [hdestinations]
          exact hupdate _ _ ownerOf_beginRow
      | finalized fingerprint repositoryId hfull hdestinations hevents hjobs =>
          rw [hdestinations]
          exact hupdate _ _ (ownerOf_readyRow repositoryId)
      | detached planId cond hplan hidle hdestinations hevents hjobs =>
          rw [hdestinations]
          exact hupdate _ _ ownerOf_detachRow

theorem owner_after {calls : List Call} {row : ManagedReplicationDestination}
    (hrow : row ∈ (World.after calls).db.destinations) (more : List Call) :
    ∃ row' ∈ (World.after (calls ++ more)).db.destinations, ownerOf row' = ownerOf row := by
  induction more using List.reverseRecOn with
  | nil => exact ⟨row, by simpa using hrow, rfl⟩
  | append_singleton more call ih =>
      obtain ⟨mid, hmid, hsame⟩ := ih
      rw [← List.append_assoc, after_concat]
      obtain ⟨last, hlast, hlastSame⟩ := owner_step hmid call
      exact ⟨last, hlast, hlastSame.trans hsame⟩

/-- In every state that calls reach: destinations lie apart and keep their owner, are
initialised once, are ready only with the id recorded for them, and none is given up
while a job blocks it. -/
theorem destination_ownership (calls : List Call) :
    ((World.after calls).db.destinations.map fun row => row.fingerprint).Nodup ∧
    (World.after calls).db.destinations.Pairwise Apart ∧
    (∀ row ∈ (World.after calls).db.destinations, ∀ more,
      ∃ row' ∈ (World.after (calls ++ more)).db.destinations, ownerOf row' = ownerOf row) ∧
    (∀ fingerprint, (World.after calls).log.count (.begun fingerprint) ≤ 1) ∧
    (∀ row ∈ (World.after calls).db.destinations, row.initState = .ready →
      ∃ repositoryId, row.actualRepositoryId = some repositoryId ∧ fullId repositoryId = true ∧
        finals (World.after calls).log row.fingerprint = [repositoryId]) ∧
    ∀ job ∈ (World.after calls).db.jobs, job.status.blocking = true →
      ∃ row ∈ (World.after calls).db.destinations,
        row.fingerprint = job.binding.destinationFingerprint ∧
        row.initState ≠ .detached := by
  have hw := owned_after calls
  refine ⟨hw.fingerprints, hw.apart, fun row hrow more => owner_after hrow more, hw.once, ?_, ?_⟩
  · exact fun row hrow hready => (hw.initialised row hrow).ready hready
  · intro job hjob hblocking
    obtain ⟨row, hrow, hsame, -, hkept⟩ := hw.reserved job hjob
    exact ⟨row, hrow, hsame, hkept hblocking⟩

end Pluton.Replication
