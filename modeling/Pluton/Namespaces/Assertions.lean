-- SUMMARY: The checks of a repository scope against the reserved export namespaces.
import Pluton.Namespaces.Database

/-!
# Scope assertions

A reservation takes an S3 location for exports for good. Before a write that says
where a repository is, the stores resolve the location with the storage row it names
and refuse the write when it overlaps a reservation. What a check resolves is an
object the caller hands it, which has columns of a raw row beside typed properties.
-/
namespace Pluton.Namespaces

open Except

/-! ## Injected functions -/

structure NamespaceSecurity where
  canonicalS3Location (endpoint bucket repositoryPath : String) : Except Failure Scope
  s3RepositoryScope (storage : Storage) (repositoryPath : Option String)
    (plaintext : Option Fields) :
    Except Failure Scope
  decryptStorageCredentials (storage : Storage) : Except Failure Fields
  isS3Storage (type : Option String) : Except Failure Bool

/-- The checks of the managed replicas and of the database itself that the same writes
make: they refuse a write or let it through. -/
structure ReplicaPolicy where
  assertPlanReplicaIsolation (db : Database) (plan : Plan) : Except Failure Unit
  assertPlanUpdateReplicaIsolation (db : Database) (id : String)
    (updates : PlanUpdate) : Except Failure Unit
  assertStorageUpdateReplicaIsolation (db : Database) (id : String) (updates : StorageUpdate) :
    Except Failure Unit
  assertReplicaNotPlanOwned (db : Database) (planId : String)
    (candidate : Scope) : Except Failure Unit
  assertPlanRemoval (db : Database) (id : String) : Except Failure Unit

structure Env where
  pathname : Pathname
  toLowerCase : String → String
  security : Option NamespaceSecurity
  policy : ReplicaPolicy

variable (env : Env)

def configured : Except Failure NamespaceSecurity :=
  match env.security with
  | some security => .ok security
  | none => .error (.app 503 "Export namespace verification is not configured.")

def canonicalS3Location (endpoint bucket repositoryPath : String) : Except Failure Scope := do
  let security ← configured env
  security.canonicalS3Location endpoint bucket repositoryPath

def s3RepositoryScope (storage : Storage) (repositoryPath : Option String)
    (plaintext : Option Fields) : Except Failure Scope :=
  do
  let security ← configured env
  security.s3RepositoryScope storage repositoryPath plaintext

def decryptStorageCredentials (storage : Storage) : Except Failure Fields := do
  let security ← configured env
  security.decryptStorageCredentials storage

def isS3Storage (type : Option String) : Except Failure Bool := do
  let security ← configured env
  security.isS3Storage type

/-! ## Resolving a reference -/

def refused : Failure :=
  .app 409
    ("S3 scope overlaps a permanently reserved Reliable Download prefix, or cannot be resolved " ++
    "safely.")

/-- What is known of a storage row once it was looked up. -/
structure Resolution where
  storage : Storage
  credentials : Option Fields
  s3 : Bool

abbrev ResolutionCache := List (String × Resolution)

/-- The edited storage in place of its row, else the row. -/
def storageFor (db : Database) (override : Option Storage) (id : String) : Option Storage :=
  (override.filter fun storage => storage.id == id).or (db.storage id)

def storageCredentials (storage : Storage) (s3 : Bool) : Except Failure (Option Fields) :=
  if s3 then (decryptStorageCredentials env storage).map some else .ok none

def resolve (storage : Storage) : Except Failure Resolution := do
  let s3 ← isS3Storage env storage.type
  let credentials ← storageCredentials env storage s3
  return ⟨storage, credentials, s3⟩

def Resolution.scope (resolution : Resolution) (storagePath : Option String) :
    Except Failure (Option Scope) :=
  if resolution.s3 then
    (s3RepositoryScope env resolution.storage storagePath resolution.credentials).map some
  else .ok none

def lookupResolution (db : Database) (override : Option Storage) (id : String) :
    Except Failure Resolution :=
  match storageFor db override id with
  | none => .error refused
  | some storage => resolve env storage

/-- The scope of a reference, with the storages already looked up at hand. -/
def cachedReferenceScope (db : Database) (reference : Reference) (override : Option Storage)
    (cache : ResolutionCache) : Except Failure (Option Scope × ResolutionCache) :=
  match truthy reference.storageId with
  | none => .ok (none, cache)
  | some id =>
      match cache.lookup id with
      | some cached => do
          let scope ← cached.scope env reference.storagePath
          return (scope, cache)
      | none => do
          let resolution ← lookupResolution env db override id
          let scope ← resolution.scope env reference.storagePath
          return (scope, Js.mapSet cache id resolution)

/-- `referenceScope` without a cache. -/
def referenceScope (db : Database) (reference : Reference) (override : Option Storage) :
    Except Failure (Option Scope) :=
  (cachedReferenceScope env db reference override []).map Prod.fst

/-! ## The assertions -/

def assertExportRepositoryScope (db : Database) (candidate : Scope) : Except Failure Unit := do
  let overlap ← db.reservations.anyM fun scope =>
      namespaceScopesOverlap env.pathname scope candidate
  refuseIf overlap refused

/-- `if (candidate) assertExportRepositoryScope(db, candidate)`. -/
def assertCandidate (db : Database) (candidate : Option Scope) : Except Failure Unit :=
  match candidate with
  | some candidate => assertExportRepositoryScope env db candidate
  | none => .ok ()

def assertReference (db : Database) (override : Option Storage) (reference : Reference) :
    Except Failure Unit := do
  let candidate ← referenceScope env db reference override
  assertCandidate env db candidate

/-- What `assertExportPlanScope` reads: a property by its typed name, and by the
name of its column. -/
structure PlanObject where
  storageId : Option String
  storage_id : Option String
  storagePath : Option String
  storage_path : Option String
  replicas : List Reference

/-- A row or a new row as the typed stores hand it over. -/
def Plan.data (plan : Plan) : PlanObject :=
  ⟨plan.storageId, none, plan.storagePath, none, plan.replicas⟩

/-- A row as `SELECT *` returns it. -/
def Plan.row (plan : Plan) : PlanObject :=
  ⟨none, plan.storageId, none, plan.storagePath, plan.replicas⟩

def PlanObject.references (plan : PlanObject) : List Reference :=
  ⟨plan.storageId.or plan.storage_id, plan.storagePath.or plan.storage_path⟩ :: plan.replicas

def assertExportPlanScope (db : Database) (plan : PlanObject) (override : Option Storage) :
    Except Failure Unit :=
  if db.reservations.isEmpty then .ok ()
  else do
    refuseIf (plan.replicas.any fun reference => (truthy reference.storageId).isNone) refused
    plan.references.forM (assertReference env db override)

structure BackupObject where
  storageId : Option String
  storage_id : Option String
  storagePath : Option String
  storage_path : Option String
  mirrors : Mirrors

def Backup.data (backup : Backup) : BackupObject :=
  ⟨backup.storageId, none, backup.storagePath, none, backup.mirrors⟩

def Backup.row (backup : Backup) : BackupObject :=
  ⟨none, backup.storageId, none, backup.storagePath, backup.mirrors⟩

/-- The mirrors as an array: none when there is no value, refused when it is not one. -/
def Mirrors.decode : Mirrors → Except Failure (List Reference)
  | null => .ok []
  | array mirrors => .ok mirrors
  | other => .error refused

def assertExportBackupScope (db : Database) (backup : BackupObject) (override : Option Storage) :
    Except Failure Unit :=
  if db.reservations.isEmpty then .ok ()
  else do
    let mirrors ← backup.mirrors.decode
    assertExportPlanScope env db
      ⟨backup.storageId, backup.storage_id, backup.storagePath,
        backup.storage_path, mirrors⟩ override

/-- `{...original, storageId: original.storage_id, storagePath:
original.storage_path, ...updates}`. -/
def Plan.spread (original : Plan) (updates : PlanUpdate) : PlanObject where
  storageId := original.storageId
  storage_id := original.storageId
  -- An explicit null and an explicit undefined both read as no value here.
  storagePath := (updates.storagePath.spread (some original.storagePath)).join
  storage_path := original.storagePath
  replicas := (updates.replicas.spread (some original.replicas)).getD []

def assertExportPlanUpdate (db : Database) (id : String) (updates : PlanUpdate) :
    Except Failure Unit :=
  if db.reservations.isEmpty then .ok ()
  else
    match db.plans.find? fun plan => plan.id == id with
    | some original => assertExportPlanScope env db (original.spread updates) none
    | none => .ok ()

/-- `{...old, ...updates}` over a typed row. -/
def Backup.spread (old : Backup) (updates : BackupUpdate) : BackupObject where
  storageId := (updates.storageId.spread (some old.storageId)).join
  storage_id := none
  storagePath := (updates.storagePath.spread (some old.storagePath)).join
  storage_path := none
  mirrors := (updates.mirrors.spread (some old.mirrors)).getD .null

def assertExportSettingsScope (db : Database) (selfBackup : Option SelfBackup)
    (override : Option Storage) :
    Except Failure Unit :=
  match selfBackup with
  | none => .ok ()
  | some selfBackup =>
      if db.reservations.isEmpty || (truthy selfBackup.storageId).isNone then .ok ()
      else assertReference env db override selfBackup.reference

/-- `{...storageRow(original), ...updates}`, where an undefined JSON column decodes to an
empty object and an undefined name or key is no text. -/
def Storage.spread (original : Storage) (updates : StorageUpdate) : Storage where
  id := (updates.id.spread (some original.id)).getD ""
  name := (updates.name.spread (some original.name)).getD ""
  type := (updates.type.spread (some original.type)).join
  defaultPath := (updates.defaultPath.spread (some original.defaultPath)).join
  settings := (updates.settings.spread (some original.settings)).getD []
  credentials := (updates.credentials.spread (some original.credentials)).getD []

/-- The check of the rows of one table that name the storage. -/
def assertNaming (db : Database) (id : String) (next : Storage) (references : List Reference) :
    Except Failure Unit :=
  (references.filter fun reference => reference.storageId == some id).forM
    (assertReference env db (some next))

/-- `assertExportStorageUpdate` once the row after the update is made up. -/
def assertExportStorage (db : Database) (id : String) (next : Storage) : Except Failure Unit := do
  db.plans.forM fun plan => assertExportPlanScope env db plan.row (some next)
  assertNaming env db id next (db.backups.map fun row => ⟨row.storageId, row.storagePath⟩)
  assertNaming env db id next (db.remoteManagedRepositories.map Repository.reference)
  assertNaming env db id next (db.retainedManagedRepositories.map Repository.reference)
  assertNaming env db id next (db.destinations.map Destination.reference)
  db.jobs.forM fun row => assertNaming env db id next [row.source, row.destination]
  db.settings.forM fun row => assertExportSettingsScope env db row.selfBackup (some next)
  db.backups.forM fun row => assertExportBackupScope env db row.row (some next)

def assertExportStorageUpdate (db : Database) (id : String) (updates : StorageUpdate) :
    Except Failure Unit :=
  if db.reservations.isEmpty then .ok ()
  else
    match db.storage id with
    | some original => assertExportStorage env db id (original.spread updates)
    | none => .ok ()

end Pluton.Namespaces
