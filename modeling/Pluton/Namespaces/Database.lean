-- SUMMARY: The rows that name a repository location, updates of them, and the database state.
import Pluton.Namespaces.Scope
import Pluton.Table

/-!
# Rows

Every table with a repository location in it, reduced to the columns that say where
the repository is and the keys the writes are decided on. An update is an object with
some of the columns as properties; a property may be there and be undefined.
-/
namespace Pluton.Namespaces

/-! ## Updates -/

/-- A property of an update object. -/
inductive Patch (α : Type) where
  | absent
  | undefined
  | value (new : α)
  deriving DecidableEq

namespace Patch

variable {α : Type}

/-- The property of `{...old, ...updates}`: a property that is there wins, undefined or not. -/
def spread (patch : Patch α) (old : Option α) : Option α :=
  match patch with
  | absent => old
  | undefined => none
  | value new => some new

/-- The column after `.set(updates)`, which passes over what is undefined. -/
def set (patch : Patch α) (old : α) : α :=
  match patch with
  | value new => new
  | _ => old

/-- The property is there without a value. -/
def isUndefined (patch : Patch α) : Bool :=
  match patch with
  | undefined => true
  | _ => false

theorem spread_of_defined {patch : Patch α} {old : α} (h : patch.isUndefined = false) :
    patch.spread (some old) = some (patch.set old) := by
  cases patch with
  | absent => rfl
  | undefined => cases h
  | value new => rfl

end Patch

/-! ## Rows -/

/-- A JSON object of texts, as a `credentials` or `settings` column holds it. -/
abbrev Fields := List (String × String)

/-- The value of a text that is there and not empty. -/
def truthy (text : Option String) : Option String := text.filter fun value => !value.isEmpty

structure Reference where
  storageId : Option String
  storagePath : Option String

structure Storage where
  id : String
  name : String
  type : Option String
  defaultPath : Option String
  settings : Fields
  credentials : Fields

structure StorageUpdate where
  id : Patch String
  name : Patch String
  type : Patch (Option String)
  defaultPath : Patch (Option String)
  settings : Patch Fields
  credentials : Patch Fields

structure Plan where
  id : String
  storageId : Option String
  storagePath : Option String
  /-- `settings.replication.storages`, disabled ones included. -/
  replicas : List Reference

/-- The fields `PlanStore.update` lets through that say where a repository is. -/
structure PlanUpdate where
  storagePath : Patch (Option String)
  replicas : Patch (List Reference)

/-- A `mirrors` column: JSON that should be an array. -/
inductive Mirrors where
  | null
  | array (mirrors : List Reference)
  | other

def Mirrors.references : Mirrors → List Reference
  | array mirrors => mirrors
  | _ => []

structure Backup where
  id : String
  planId : Option String
  inProgress : Bool
  storageId : Option String
  storagePath : Option String
  mirrors : Mirrors

structure BackupUpdate where
  inProgress : Patch Bool
  storageId : Patch (Option String)
  storagePath : Patch (Option String)
  mirrors : Patch Mirrors

/-- A row of `remote_managed_repositories`, or of `retained_managed_repositories` once
its plan is gone. -/
structure Repository where
  id : String
  planId : String
  agentId : String
  storageId : String
  storagePath : String

inductive InitState where
  | uninitialized
  | initializing
  | ready
  | uncertain
  | detached
  deriving DecidableEq

/-- A row of `managed_replication_destinations`. -/
structure Destination where
  fingerprint : String
  planId : String
  replicationId : String
  sourceRepositoryId : String
  destinationStorageId : String
  destinationStoragePath : String
  destinationAuthority : String
  destinationPrefix : String
  initState : InitState

/-- A row of `managed_replication_jobs`. -/
structure Job where
  id : String
  sourceStorageId : String
  sourceStoragePath : String
  destinationStorageId : String
  destinationStoragePath : String

structure SelfBackup where
  storageId : Option String
  path : Option String

structure SettingsRow where
  id : Nat
  selfBackup : Option SelfBackup

structure AgentCommand where
  id : String
  agentId : String
  idempotencyKey : String

/-- A row of `managed_export_storage_edits`. -/
structure Edit where
  storageId : String
  remoteName : String
  authorities : List String

structure Database where
  /-- The two tables of the export policy are there. -/
  initialized : Bool
  reservations : List Scope
  edits : List Edit
  storages : List Storage
  plans : List Plan
  backups : List Backup
  remoteManagedRepositories : List Repository
  retainedManagedRepositories : List Repository
  destinations : List Destination
  jobs : List Job
  settings : List SettingsRow
  /-- The `backend` column of `legacy_repositories`. -/
  legacyRepositories : List String
  agentCommands : List AgentCommand

/-- The migrated database before anything is stored. -/
def Database.empty : Database :=
  ⟨false, [], [], [], [], [], [], [], [], [], [], [], []⟩

/-! ## Where the rows point -/

def Plan.references (plan : Plan) : List Reference :=
  ⟨plan.storageId, plan.storagePath⟩ :: plan.replicas

def Backup.references (backup : Backup) : List Reference :=
  ⟨backup.storageId, backup.storagePath⟩ :: backup.mirrors.references

def Repository.reference (row : Repository) : Reference :=
  ⟨some row.storageId, some row.storagePath⟩

def Destination.reference (row : Destination) : Reference :=
  ⟨some row.destinationStorageId, some row.destinationStoragePath⟩

/-- The location the destination was reserved at. -/
def Destination.scope (row : Destination) : Scope :=
  ⟨row.destinationAuthority, row.destinationPrefix⟩

def Job.source (row : Job) : Reference := ⟨some row.sourceStorageId, some row.sourceStoragePath⟩

def Job.destination (row : Job) : Reference :=
  ⟨some row.destinationStorageId, some row.destinationStoragePath⟩

def SelfBackup.reference (selfBackup : SelfBackup) : Reference :=
  ⟨selfBackup.storageId, selfBackup.path⟩

def SettingsRow.references (row : SettingsRow) : List Reference :=
  (row.selfBackup.map SelfBackup.reference).toList

/-- Every repository reference the database holds. -/
def Database.references (db : Database) : List Reference :=
  db.plans.flatMap Plan.references ++ db.backups.flatMap Backup.references ++
    db.remoteManagedRepositories.map Repository.reference ++
    db.retainedManagedRepositories.map Repository.reference ++
    db.destinations.map Destination.reference ++
    db.jobs.map Job.source ++ db.jobs.map Job.destination ++
    db.settings.flatMap SettingsRow.references

def Database.storage (db : Database) (id : String) : Option Storage :=
  db.storages.find? fun row => row.id == id

/-! ## Rows after an update -/

/-- The row after `.set(updates)`. -/
def Storage.set (row : Storage) (updates : StorageUpdate) : Storage where
  id := updates.id.set row.id
  name := updates.name.set row.name
  type := updates.type.set row.type
  defaultPath := updates.defaultPath.set row.defaultPath
  settings := updates.settings.set row.settings
  credentials := updates.credentials.set row.credentials

def Plan.set (row : Plan) (updates : PlanUpdate) : Plan where
  id := row.id
  storageId := row.storageId
  storagePath := updates.storagePath.set row.storagePath
  replicas := updates.replicas.set row.replicas

def Backup.set (row : Backup) (updates : BackupUpdate) : Backup where
  id := row.id
  planId := row.planId
  inProgress := updates.inProgress.set row.inProgress
  storageId := updates.storageId.set row.storageId
  storagePath := updates.storagePath.set row.storagePath
  mirrors := updates.mirrors.set row.mirrors

end Pluton.Namespaces
