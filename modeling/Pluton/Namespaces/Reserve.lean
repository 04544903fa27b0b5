-- SUMMARY: Reserving an export namespace and opening an edit of a storage.
import Pluton.Namespaces.Assertions

/-!
# Reservations and edits

`reserveExportNamespace` takes a location for exports after it has resolved every
repository reference the database holds. `beginExportStorageEdit` leaves a durable
mark over the time in which a remote configuration is edited.
-/
namespace Pluton.Namespaces

open Except

variable (env : Env)

/-! ## New and edited storages -/

def normalizeStorageName (name : String) : String :=
  if name == "Local" || name == "Local Storage" then "local" else name

/-- The rclone remote a storage name stands for. -/
def remoteName (name : String) : String := env.toLowerCase (Js.trim (normalizeStorageName name))

/-- `text.replace(/^\/+|\/+$/g, '')`. -/
def stripSlashes (text : String) : String :=
  String.ofList ((text.toList.dropWhile (· == '/')).reverse.dropWhile (· == '/')).reverse

/-- `credentials.bucket` in a template text. -/
def bucketText (credentials : Fields) : String := (credentials.lookup "bucket").getD "undefined"

def scopePlaceholder (credentials : Fields) : String :=
  bucketText credentials ++ "/scope-placeholder"

/-- The check of a default path below the bucket. -/
def assertDefaultPath (db : Database) (storage : Storage) (credentials : Fields) :
    Except Failure Unit :=
  match truthy storage.defaultPath with
  | none => .ok ()
  | some path =>
      if some (stripSlashes path) == credentials.lookup "bucket" then .ok ()
      else do
        let scope ← s3RepositoryScope env storage (some path) none
        assertExportRepositoryScope env db scope

def assertS3Location (db : Database) (storage : Storage) (s3 : Bool) : Except Failure Unit :=
  if s3 then do
    let credentials ← decryptStorageCredentials env storage
    let _ ← s3RepositoryScope env storage (some (scopePlaceholder credentials)) none
    assertDefaultPath env db storage credentials
  else .ok ()

def assertExportStorageCreation (db : Database) (storage : Storage) : Except Failure Unit :=
  if !db.initialized then .ok ()
  else do
    let name := remoteName env storage.name
    refuseIf (name.isEmpty || db.storages.any fun row =>
      row.id != storage.id && remoteName env row.name == name)
      (.app 409 "Storage remote name is already registered or ambiguous.")
    refuseIf (db.edits.any fun row => row.storageId != storage.id && row.remoteName == name)
      (.app 409 "Storage remote name is reserved by an active or uncertain configuration edit.")
    let s3 ← isS3Storage env storage.type
    assertS3Location env db storage s3

/-- An update with every property of a storage. -/
def Storage.asUpdate (storage : Storage) : StorageUpdate where
  id := .value storage.id
  name := .value storage.name
  type := .value storage.type
  defaultPath := .value storage.defaultPath
  settings := .value storage.settings
  credentials := .value storage.credentials

/-- `original && reservations(db).some(scope => namespaceMayAlias(scope, candidate))`. -/
def aliasesReservation (db : Database) (original : Bool) (candidate : Scope) :
    Except Failure Bool :=
  if original then db.reservations.anyM fun scope => namespaceMayAlias env.pathname scope candidate
  else .ok false

/-- The authority an edit records for one side of it, refused when a reservation may
be in the same bucket. -/
def editedAuthority (db : Database) (original : Bool) (storage : Storage) (s3 : Bool) :
    Except Failure (List String) :=
  if s3 then do
    let credentials ← decryptStorageCredentials env storage
    let candidate ← s3RepositoryScope env storage (some (scopePlaceholder credentials)) none
    let reserved ← aliasesReservation env db original candidate
    refuseIf reserved refused
    return [candidate.authority]
  else .ok []

def editedAuthorities (db : Database) (original : Bool) (storage : Storage) :
    Except Failure (List String) := do
  let s3 ← isS3Storage env storage.type
  editedAuthority env db original storage s3

def beginExportStorageEdit (db : Database) (id : String) (next : Storage) :
    Except Failure Database :=
  if !db.initialized then .ok db
  else do
    assertExportStorageCreation env db next
    assertExportStorageUpdate env db id next.asUpdate
    let original := db.storage id
    let authorities ← (next :: original.toList).mapM (editedAuthorities env db original.isSome)
    refuseIf (db.edits.any fun row => row.storageId == id)
      (.app 409
        "S3 configuration edit is active or uncertain; operator reconciliation is required.")
    refuseIf (db.edits.any fun row => row.remoteName == remoteName env next.name) .constraint
    return { db with edits := db.edits ++ [⟨id, remoteName env next.name, authorities.flatten⟩] }

/-- The function `beginExportStorageEdit` returns. -/
def completeExportStorageEdit (db : Database) (id : String) : Database :=
  { db with edits := db.edits.filter fun row => row.storageId != id }

/-! ## Reserving -/

structure ExportConfig where
  endpoint : String
  bucket : String
  keyPrefix : String

def overlapsSelected (selected : Scope) (scope : Option Scope) : Except Failure Bool :=
  match scope with
  | some scope => namespaceScopesOverlap env.pathname selected scope
  | none => .ok false

/-- `check(reference)`, with the cache of the transaction passed on. -/
def checkReference (db : Database) (selected : Scope) (cache : ResolutionCache)
    (reference : Reference) : Except Failure ResolutionCache :=
  do
  let (scope, cache) ← cachedReferenceScope env db reference none cache
  let overlap ← overlapsSelected env selected scope
  refuseIf overlap refused
  return cache

/-- A replica or a mirror, which has to name a storage. -/
def checkNamed (db : Database) (selected : Scope) (cache : ResolutionCache)
    (reference : Reference) : Except Failure ResolutionCache :=
  do
  refuseIf (truthy reference.storageId).isNone refused
  checkReference env db selected cache reference

def checkPlan (db : Database) (selected : Scope) (cache : ResolutionCache) (plan : Plan) :
    Except Failure ResolutionCache := do
  let cache ← checkReference env db selected cache ⟨plan.storageId, plan.storagePath⟩
  plan.replicas.foldlM (checkNamed env db selected) cache

def checkMirrors (db : Database) (selected : Scope) (cache : ResolutionCache) (backup : Backup) :
    Except Failure ResolutionCache := do
  let mirrors ← backup.mirrors.decode
  mirrors.foldlM (checkNamed env db selected) cache

def checkDestination (db : Database) (selected : Scope) (cache : ResolutionCache)
    (row : Destination) : Except Failure ResolutionCache :=
  do
  let overlap ← namespaceScopesOverlap env.pathname selected row.scope
  refuseIf overlap refused
  checkReference env db selected cache row.reference

def checkJob (db : Database) (selected : Scope) (cache : ResolutionCache) (row : Job) :
    Except Failure ResolutionCache := do
  let cache ← checkReference env db selected cache row.destination
  checkReference env db selected cache row.source

def checkSettings (db : Database) (selected : Scope) (cache : ResolutionCache) (row : SettingsRow) :
    Except Failure ResolutionCache :=
  match row.selfBackup with
  | none => .ok cache
  | some selfBackup =>
      if (truthy selfBackup.storageId).isNone then .ok cache
      else checkReference env db selected cache selfBackup.reference

/-- Every reference of the database against the selected location. -/
def checkDatabase (db : Database) (selected : Scope) : Except Failure ResolutionCache := do
  let cache ← db.plans.foldlM (checkPlan env db selected) []
  let cache ← (db.backups.map fun row => ⟨row.storageId, row.storagePath⟩).foldlM
    (checkReference env db selected) cache
  let cache ← (db.remoteManagedRepositories.map Repository.reference).foldlM
    (checkReference env db selected) cache
  let cache ← (db.retainedManagedRepositories.map Repository.reference).foldlM
    (checkReference env db selected) cache
  let cache ← db.backups.foldlM (checkMirrors env db selected) cache
  let cache ← db.destinations.foldlM (checkDestination env db selected) cache
  let cache ← db.jobs.foldlM (checkJob env db selected) cache
  db.settings.foldlM (checkSettings env db selected) cache

def mayAliasEdit (selected : Scope) (edit : Edit) : Except Failure Bool :=
  edit.authorities.anyM fun authority => namespaceMayAlias env.pathname selected ⟨authority, ""⟩

/-- `INSERT OR IGNORE` of a reservation. -/
def Database.reserve (db : Database) (selected : Scope) : Database :=
  if db.reservations.contains selected then db
  else { db with reservations := db.reservations ++ [selected] }

def reserveTransaction (db : Database) (config : ExportConfig) : Except Failure Database := do
  let selected ← canonicalS3Location env config.endpoint config.bucket
      (config.bucket ++ "/" ++ config.keyPrefix)
  let edited ← db.edits.anyM (mayAliasEdit env selected)
  refuseIf edited refused
  refuseIf (!decide (db.storages.map fun row => remoteName env row.name).Nodup) refused
  let _ ← checkDatabase env db selected
  refuseIf (db.legacyRepositories.any fun backend => backend != "local") refused
  -- Without its table the statements of the reservation cannot be prepared.
  refuseIf (!db.initialized) (.error "no such table: managed_export_namespace_reservations")
  refuseIf (!db.reservations.contains selected && decide (db.reservations.length ≥ 8)) refused
  return db.reserve selected

def reserveExportNamespace (db : Database) (config : ExportConfig) : Except Failure Database :=
  (reserveTransaction env db config).mapError fun _ =>
    .app 409 "Reliable Download unavailable (destination-not-isolated)."

end Pluton.Namespaces
