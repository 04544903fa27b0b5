-- SUMMARY: The store operations that say where a repository is, as one transition function.
import Pluton.Namespaces.Reserve

/-!
# Stores

The writes of the plan, storage, backup, settings, replication and managed repository
stores. Each is one transaction: a call that throws leaves the database as it was.
-/
namespace Pluton.Namespaces

open Except

variable (env : Env)

/-- `INSERT` into a table with a primary key. -/
def insertRow {ρ κ : Type} [BEq κ] (key : ρ → κ) (rows : List ρ) (row : ρ) :
    Except Failure (List ρ) := do
  refuseIf (rows.any fun other => key other == key row) .constraint
  return rows ++ [row]

/-! ## Plans -/

def PlanStore.create (db : Database) (plan : Plan) : Except Failure Database := do
  env.policy.assertPlanReplicaIsolation db plan
  assertExportPlanScope env db plan.data none
  let plans ← insertRow Plan.id db.plans plan
  return { db with plans }

/-- An update without an allowed field returns before the transaction; here it writes
the row it found. -/
def PlanStore.update (db : Database) (id : String) (updates : PlanUpdate) :
    Except Failure Database := do
  env.policy.assertPlanUpdateReplicaIsolation db id updates
  assertExportPlanUpdate env db id updates
  return { db with
    plans := Table.update db.plans (fun row => row.id == id) fun row => row.set updates }

/-- The repository of a removed plan is kept with the retained ones. -/
def PlanStore.delete (db : Database) (id : String) (removeHistory : Bool) :
    Except Failure Database := do
  env.policy.assertPlanRemoval db id
  let escrow := (db.remoteManagedRepositories.find? fun row => row.planId == id).toList
  refuseIf (escrow.any fun row =>
    db.retainedManagedRepositories.any fun other => other.id == row.id)
    (.app 500 ("Retained repository access could not be archived safely. Plan removal was not " ++
      "completed."))
  return { db with
    retainedManagedRepositories := db.retainedManagedRepositories ++ escrow
    backups := db.backups.filter fun row => !(removeHistory && row.planId == some id)
    remoteManagedRepositories := db.remoteManagedRepositories.filter fun row =>
      !escrow.any fun other => other.id == row.id
    plans := db.plans.filter fun row => row.id != id }

/-! ## Storages -/

def StorageStore.create (db : Database) (storage : Storage) : Except Failure Database := do
  assertExportStorageCreation env db storage
  let storages ← insertRow Storage.id db.storages storage
  return { db with storages }

def StorageStore.update (db : Database) (id : String) (updates : StorageUpdate) :
    Except Failure Database := do
  assertExportStorageUpdate env db id updates
  env.policy.assertStorageUpdateReplicaIsolation db id updates
  let storages := Table.update db.storages (fun row => row.id == id) fun row => row.set updates
  refuseIf (!decide (storages.map Storage.id).Nodup) .constraint
  return { db with storages }

/-! ## Backups -/

def BackupStore.create (db : Database) (backup : Backup) : Except Failure Database := do
  assertExportBackupScope env db backup.data none
  let backups ← insertRow Backup.id db.backups backup
  return { db with backups }

def assertBackupUpdate (db : Database) (id : String) (updates : BackupUpdate) :
    Except Failure Unit :=
  if db.reservations.isEmpty then .ok ()
  else
    match db.backups.find? fun row => row.id == id with
    | some old => assertExportBackupScope env db (old.spread updates) none
    | none => .ok ()

def BackupStore.update (db : Database) (id : String) (updates : BackupUpdate) :
    Except Failure Database := do
  assertBackupUpdate env db id updates
  return { db with
    backups := Table.update db.backups (fun row => row.id == id) fun row => row.set updates }

/-! ## Settings -/

def SettingsStore.create (db : Database) (row : SettingsRow) : Except Failure Database := do
  assertExportSettingsScope env db row.selfBackup none
  let settings ← insertRow SettingsRow.id db.settings row
  return { db with settings }

def SettingsStore.update (db : Database) (id : Nat) (selfBackup : Option SelfBackup) :
    Except Failure Database := do
  assertExportSettingsScope env db selfBackup none
  return { db with
    settings :=
      Table.update db.settings (fun row => row.id == id) fun row => { row with selfBackup } }

/-! ## Replication destinations -/

/-- `/^[a-f0-9]{64}$/` -/
def fullId (text : String) : Bool :=
  text.toList.length == 64 && text.toList.all fun ch => ch.isDigit || ('a' ≤ ch && ch ≤ 'f')

/-- The binding asks for another repository than the one its fingerprint is reserved for. -/
def ownershipChanged (old binding : Destination) : Bool :=
  old.planId != binding.planId || old.replicationId != binding.replicationId ||
    old.sourceRepositoryId != binding.sourceRepositoryId ||
    old.destinationStorageId != binding.destinationStorageId ||
    old.destinationStoragePath != binding.destinationStoragePath || old.initState == .detached

def invalidIdentity (binding : Destination) : Bool :=
  !fullId binding.fingerprint || binding.destinationAuthority.isEmpty ||
    binding.destinationPrefix.isEmpty ||
    (Js.split '/' binding.destinationPrefix).any fun part => part == ".." || part == ""

def destinationsOverlap (other binding : Destination) : Bool :=
  other.destinationAuthority == binding.destinationAuthority &&
    (other.destinationPrefix == binding.destinationPrefix ||
      Js.startsWith (binding.destinationPrefix ++ "/") other.destinationPrefix ||
      Js.startsWith (other.destinationPrefix ++ "/") binding.destinationPrefix)

def insertDestination (db : Database) (binding : Destination) : Except Failure Database := do
  refuseIf (invalidIdentity binding) (.app 400 "Invalid replica repository identity.")
  refuseIf (db.destinations.any fun other => destinationsOverlap other binding)
    (.app 409 "Replica repository prefix overlaps an existing or retained destination.")
  refuseIf (db.destinations.any fun other =>
    other.planId == binding.planId && other.replicationId == binding.replicationId) .constraint
  return { db with
    destinations := db.destinations ++ [{ binding with initState := .uninitialized }] }

def ManagedReplicationStore.reserveDestination (db : Database) (binding : Destination) :
    Except Failure Database := do
  env.policy.assertReplicaNotPlanOwned db binding.planId binding.scope
  assertExportRepositoryScope env db binding.scope
  match db.destinations.find? fun row => row.fingerprint == binding.fingerprint with
  | some old => do
      refuseIf (ownershipChanged old binding) (.app 409 "Replica repository ownership changed.")
      return db
  | none => insertDestination db binding

/-! ## Managed repositories -/

def RemoteManagedRepositoryStore.create (db : Database) (data : Repository) :
    Except Failure Database := do
  refuseIf (db.remoteManagedRepositories.any fun row => row.planId == data.planId) .constraint
  let remoteManagedRepositories ← insertRow Repository.id db.remoteManagedRepositories data
  return { db with remoteManagedRepositories }

def RemoteManagedRepositoryStore.createBackupAndCommand (db : Database) (backup : Backup)
    (command : AgentCommand) : Except Failure Database := do
  refuseIf (truthy backup.planId).isNone (.error "Remote backup requires a plan ID.")
  refuseIf (db.backups.any fun row => row.planId == backup.planId && row.inProgress)
    (.error "A remote backup is already active for this plan.")
  let backups ← insertRow Backup.id db.backups backup
  refuseIf (db.agentCommands.any fun row =>
    row.idempotencyKey == command.idempotencyKey) .constraint
  let agentCommands ← insertRow AgentCommand.id db.agentCommands command
  return { db with backups, agentCommands }

/-! ## What a call that returns did -/

section

variable {env} {db next : Database} {id : String}

theorem insertRow_eq_ok {ρ κ : Type} [BEq κ] [LawfulBEq κ] {key : ρ → κ} {rows rows' : List ρ}
    {row : ρ} :
    insertRow key rows row = .ok rows' ↔ key row ∉ rows.map key ∧ rows' = rows ++ [row] := by
  unfold insertRow
  simp only [bind_eq_ok, refuseIf_eq_ok, pure_eq_ok, List.any_eq_false, beq_iff_eq, List.mem_map,
    not_exists, not_and]
  constructor
  · rintro ⟨_, hfresh, rfl⟩
    exact ⟨hfresh, rfl⟩
  · rintro ⟨hfresh, rfl⟩
    exact ⟨(), hfresh, rfl⟩

theorem nodup_append_key {ρ κ : Type} {key : ρ → κ} {rows : List ρ} {row : ρ}
    (h : (rows.map key).Nodup) (hfresh : key row ∉ rows.map key) :
    ((rows ++ [row]).map key).Nodup := by
  rw [List.map_append, List.map_singleton, ← List.concat_eq_append, List.nodup_concat]
  exact ⟨hfresh, h⟩

theorem PlanStore.create_cases {plan : Plan} (h : PlanStore.create env db plan = .ok next) :
    assertExportPlanScope env db plan.data none = .ok () ∧ plan.id ∉ db.plans.map Plan.id ∧
      next = { db with plans := db.plans ++ [plan] } := by
  unfold PlanStore.create at h
  simp only [bind_eq_ok, pure_eq_ok] at h
  obtain ⟨_, -, _, hscope, plans, hplans, rfl⟩ := h
  obtain ⟨hfresh, rfl⟩ := insertRow_eq_ok.mp hplans
  exact ⟨hscope, hfresh, rfl⟩

theorem PlanStore.update_cases {updates : PlanUpdate}
    (h : PlanStore.update env db id updates = .ok next) :
    assertExportPlanUpdate env db id updates = .ok () ∧
      next = { db with
        plans := Table.update db.plans (fun row => row.id == id) fun row => row.set updates } := by
  unfold PlanStore.update at h
  simp only [bind_eq_ok, pure_eq_ok] at h
  obtain ⟨_, -, _, hscope, rfl⟩ := h
  exact ⟨hscope, rfl⟩

theorem PlanStore.delete_cases {removeHistory : Bool}
    (h : PlanStore.delete env db id removeHistory = .ok next) :
    ∃ escrow ⊆ db.remoteManagedRepositories, ∃ plans, plans.Sublist db.plans ∧ ∃ backups,
      backups.Sublist db.backups ∧ ∃ remote, remote.Sublist db.remoteManagedRepositories ∧
        next = { db with
          retainedManagedRepositories := db.retainedManagedRepositories ++ escrow, plans, backups
          remoteManagedRepositories := remote } := by
  unfold PlanStore.delete at h
  simp only [bind_eq_ok, pure_eq_ok] at h
  obtain ⟨_, -, _, -, rfl⟩ := h
  refine ⟨_, ?_, _, List.filter_sublist, _, List.filter_sublist, _, List.filter_sublist, rfl⟩
  intro row hrow
  exact List.mem_of_find?_eq_some (Option.mem_toList.mp hrow)

theorem StorageStore.create_cases {storage : Storage}
    (h : StorageStore.create env db storage = .ok next) :
    storage.id ∉ db.storages.map Storage.id ∧ next = { db with
      storages := db.storages ++ [storage] } := by
  unfold StorageStore.create at h
  simp only [bind_eq_ok, pure_eq_ok] at h
  obtain ⟨_, -, storages, hstorages, rfl⟩ := h
  obtain ⟨hfresh, rfl⟩ := insertRow_eq_ok.mp hstorages
  exact ⟨hfresh, rfl⟩

theorem StorageStore.update_cases {updates : StorageUpdate}
    (h : StorageStore.update env db id updates = .ok next) :
    assertExportStorageUpdate env db id updates = .ok () ∧ (next.storages.map Storage.id).Nodup ∧
      next = { db with
        storages :=
          Table.update db.storages (fun row => row.id == id) fun row => row.set updates } := by
  unfold StorageStore.update at h
  simp only [bind_eq_ok, refuseIf_eq_ok, pure_eq_ok] at h
  obtain ⟨_, hscope, _, -, _, hnodup, rfl⟩ := h
  exact ⟨hscope, by simpa using hnodup, rfl⟩

theorem BackupStore.create_cases {backup : Backup}
    (h : BackupStore.create env db backup = .ok next) :
    assertExportBackupScope env db backup.data none =
      .ok () ∧ backup.id ∉ db.backups.map Backup.id ∧
      next = { db with backups := db.backups ++ [backup] } := by
  unfold BackupStore.create at h
  simp only [bind_eq_ok, pure_eq_ok] at h
  obtain ⟨_, hscope, backups, hbackups, rfl⟩ := h
  obtain ⟨hfresh, rfl⟩ := insertRow_eq_ok.mp hbackups
  exact ⟨hscope, hfresh, rfl⟩

theorem BackupStore.update_cases {updates : BackupUpdate}
    (h : BackupStore.update env db id updates = .ok next) :
    assertBackupUpdate env db id updates = .ok () ∧
      next = { db with
        backups := Table.update db.backups (fun row => row.id == id) fun row =>
          row.set updates } := by
  unfold BackupStore.update at h
  simp only [bind_eq_ok, pure_eq_ok] at h
  obtain ⟨_, hscope, rfl⟩ := h
  exact ⟨hscope, rfl⟩

theorem SettingsStore.create_cases {row : SettingsRow}
    (h : SettingsStore.create env db row = .ok next) :
    assertExportSettingsScope env db row.selfBackup none = .ok () ∧
      next = { db with settings := db.settings ++ [row] } := by
  unfold SettingsStore.create at h
  simp only [bind_eq_ok, pure_eq_ok] at h
  obtain ⟨_, hscope, settings, hsettings, rfl⟩ := h
  obtain ⟨-, rfl⟩ := insertRow_eq_ok.mp hsettings
  exact ⟨hscope, rfl⟩

theorem SettingsStore.update_cases {id : Nat} {selfBackup : Option SelfBackup}
    (h : SettingsStore.update env db id selfBackup = .ok next) :
    assertExportSettingsScope env db selfBackup none = .ok () ∧
      next = { db with
        settings := Table.update db.settings (fun row => row.id == id) fun row =>
          { row with selfBackup } } := by
  unfold SettingsStore.update at h
  simp only [bind_eq_ok, pure_eq_ok] at h
  obtain ⟨_, hscope, rfl⟩ := h
  exact ⟨hscope, rfl⟩

/-- A destination is found again, or a new row is written for it. -/
theorem reserveDestination_cases {binding : Destination}
    (h : ManagedReplicationStore.reserveDestination env db binding = .ok next) :
    assertExportRepositoryScope env db binding.scope = .ok () ∧ (next = db ∨
      next = { db with
        destinations := db.destinations ++ [{ binding with initState := .uninitialized }] }) := by
  unfold ManagedReplicationStore.reserveDestination at h
  simp only [bind_eq_ok] at h
  obtain ⟨_, -, _, hscope, hrest⟩ := h
  refine ⟨hscope, ?_⟩
  cases hfind : db.destinations.find? fun row => row.fingerprint == binding.fingerprint with
  | some old =>
      simp only [hfind, bind_eq_ok, pure_eq_ok] at hrest
      obtain ⟨_, -, rfl⟩ := hrest
      exact .inl rfl
  | none =>
      simp only [hfind] at hrest
      unfold insertDestination at hrest
      simp only [bind_eq_ok, pure_eq_ok] at hrest
      obtain ⟨_, -, _, -, _, -, rfl⟩ := hrest
      exact .inr rfl

theorem createRepository_cases {data : Repository}
    (h : RemoteManagedRepositoryStore.create db data = .ok next) :
    next = { db with remoteManagedRepositories := db.remoteManagedRepositories ++ [data] } := by
  unfold RemoteManagedRepositoryStore.create at h
  simp only [bind_eq_ok, pure_eq_ok] at h
  obtain ⟨_, -, repositories, hrepositories, rfl⟩ := h
  obtain ⟨-, rfl⟩ := insertRow_eq_ok.mp hrepositories
  rfl

theorem createBackupAndCommand_cases {backup : Backup} {command : AgentCommand}
    (h : RemoteManagedRepositoryStore.createBackupAndCommand db backup command = .ok next) :
    ∃ agentCommands, backup.id ∉ db.backups.map Backup.id ∧
      next = { db with backups := db.backups ++ [backup], agentCommands } := by
  unfold RemoteManagedRepositoryStore.createBackupAndCommand at h
  simp only [bind_eq_ok, pure_eq_ok] at h
  obtain ⟨_, -, _, -, backups, hbackups, _, -, agentCommands, -, rfl⟩ := h
  obtain ⟨hfresh, rfl⟩ := insertRow_eq_ok.mp hbackups
  exact ⟨agentCommands, hfresh, rfl⟩

theorem beginExportStorageEdit_cases {storage : Storage}
    (h : beginExportStorageEdit env db id storage = .ok next) :
    ∃ edits, next = { db with edits } := by
  unfold beginExportStorageEdit at h
  split at h
  · exact ⟨db.edits, (Except.ok.inj h).symm⟩
  · simp only [bind_eq_ok, pure_eq_ok] at h
    obtain ⟨_, -, _, -, _, -, _, -, _, -, rfl⟩ := h
    exact ⟨_, rfl⟩

end

/-! ## The transition function -/

inductive Op where
  | initializeExportNamespaceReservations
  | createPlan (plan : Plan)
  | updatePlan (id : String) (updates : PlanUpdate)
  | deletePlan (id : String) (removeHistory : Bool)
  | createStorage (storage : Storage)
  | updateStorage (id : String) (updates : StorageUpdate)
  | createBackup (backup : Backup)
  | updateBackup (id : String) (updates : BackupUpdate)
  | createSettings (row : SettingsRow)
  | updateSettings (id : Nat) (selfBackup : Option SelfBackup)
  | reserveDestination (binding : Destination)
  | createRepository (data : Repository)
  | createBackupAndCommand (backup : Backup) (command : AgentCommand)
  | reserveExportNamespace (config : ExportConfig)
  | beginExportStorageEdit (id : String) (next : Storage)
  | completeExportStorageEdit (id : String)

def Op.run (db : Database) : Op → Except Failure Database
  | initializeExportNamespaceReservations => .ok { db with initialized := true }
  | createPlan plan => PlanStore.create env db plan
  | updatePlan id updates => PlanStore.update env db id updates
  | deletePlan id removeHistory => PlanStore.delete env db id removeHistory
  | createStorage storage => StorageStore.create env db storage
  | updateStorage id updates => StorageStore.update env db id updates
  | createBackup backup => BackupStore.create env db backup
  | updateBackup id updates => BackupStore.update env db id updates
  | createSettings row => SettingsStore.create env db row
  | updateSettings id selfBackup => SettingsStore.update env db id selfBackup
  | reserveDestination binding => ManagedReplicationStore.reserveDestination env db binding
  | createRepository data => RemoteManagedRepositoryStore.create db data
  | createBackupAndCommand backup command =>
      RemoteManagedRepositoryStore.createBackupAndCommand db backup command
  | reserveExportNamespace config => Namespaces.reserveExportNamespace env db config
  | beginExportStorageEdit id next => Namespaces.beginExportStorageEdit env db id next
  | completeExportStorageEdit id => .ok (Namespaces.completeExportStorageEdit db id)

/-- A call that throws rolls back. -/
def step (db : Database) (op : Op) : Database :=
  match op.run env db with
  | .ok next => next
  | .error _ => db

/-- The database after a run of calls from an empty one. -/
def after (ops : List Op) : Database := ops.foldl (step env) .empty

/-! ## Registered scopes -/

/-- The scope a reference resolves to. -/
def Database.scopeOf (db : Database) (reference : Reference) : Option Scope :=
  match referenceScope env db reference none with
  | .ok scope => scope
  | .error _ => none

/-- The scopes of all repositories the database knows: of every reference as its storage
row resolves it now, and of every destination as it was reserved. -/
def Database.registeredScopes (db : Database) : List Scope :=
  db.references.filterMap (db.scopeOf env) ++ db.destinations.map Destination.scope

/-- No registered scope overlaps a reserved one. -/
def Exclusive (db : Database) : Prop :=
  ∀ scope ∈ db.registeredScopes env, ∀ reserved ∈ db.reservations,
    namespaceScopesOverlap env.pathname reserved scope ≠ .ok true

instance (db : Database) : Decidable (Exclusive env db) :=
  inferInstanceAs (Decidable (∀ scope ∈ db.registeredScopes env,
    ∀ reserved ∈ db.reservations, _ ≠ _))

end Pluton.Namespaces
