-- SUMMARY: The server's lifecycle schema, and how credentials leave and enter a plan.
import Pluton.Ends
import Pluton.Pattern

/-!
# Remote lifecycles

`remoteLifecycle.ts`. A plan's lifecycle lists the databases to dump and two hooks.
Passwords are never kept in it: `prepareRemoteLifecycleCollection` encrypts those that
a request brings and keeps those that it leaves out, and a materialisation puts them
back for the agent. A value of these types has the shape the schema asks for; what the
schema says of the contents is `valid`.
-/
namespace Pluton.Lifecycle

open Except

/-! ## Data -/

inductive Engine where
  | mysql
  | mariadb
  | postgresql
  deriving DecidableEq

inductive Tls where
  | verifyIdentity
  | local
  deriving DecidableEq

structure Hook where
  id : String
  args : List String
  timeoutSeconds : Nat
  deriving DecidableEq

structure Hooks where
  preHook : Option Hook
  postHook : Option Hook
  deriving DecidableEq

structure RemoteDatabase where
  databaseId : Option String
  engine : Engine
  host : String
  port : Nat
  tls : Tls
  database : String
  username : String
  dumpFilename : String
  timeoutSeconds : Nat
  maxDumpBytes : Nat
  includeRoutines : Bool
  includeEvents : Bool
  password : Option String
  passwordConfigured : Option Bool
  deriving DecidableEq

/-- Version 1 is the form of the single-database clients, version 2 the stored one. -/
inductive RemoteLifecycle where
  | single (database : Option RemoteDatabase) (hooks : Hooks)
  | collection (databases : List RemoteDatabase) (hooks : Hooks)
  deriving DecidableEq

structure DatabaseCredential where
  databaseId : String
  encryptedPassword : String
  legacySingle : Bool
  deriving DecidableEq

structure AppError where
  statusCode : Nat
  message : String

/-- Encryption with the secret of the server. It is randomised: `encrypt` takes the salt. -/
structure Cryptr where
  encrypt (salt : Nat) (text : String) : String
  decrypt (text : String) : Option String
  decrypt_encrypt (salt : Nat) (text : String) : decrypt (encrypt salt text) = some text

def RemoteLifecycle.hooks : RemoteLifecycle → Hooks
  | single _ hooks => hooks
  | collection _ hooks => hooks

def lifecycleDatabases : RemoteLifecycle → List RemoteDatabase
  | .single database _ => database.toList
  | .collection databases _ => databases

/-! ## The schema -/

def maxPlanDatabases : Nat := 8

/-- `/^db_[a-zA-Z0-9_-]{1,64}$/` -/
def validDatabaseId (text : String) : Bool :=
  Pattern.after "db_" Pattern.dashed text && text.toList.length ≤ 67

/-- `[A-Za-z0-9_.,:@/+ =-]` -/
def argChar (ch : Char) : Bool :=
  Pattern.dotted ch || [',', ':', '@', '/', '+', ' ', '='].contains ch

/-- What a hook argument may not look like. -/
def unsafeArg (arg : String) : Bool :=
  Js.startsWith "-" arg || Js.startsWith "/" arg || (Js.split '/' arg).contains ".."

def validHook (hook : Hook) : Bool :=
  Pattern.headed Pattern.dashed Pattern.dotted hook.id && hook.id.toList.length ≤ 100 &&
    hook.args.all (fun arg => Js.length arg ≤ 128 && Pattern.all argChar arg && !unsafeArg arg) &&
    hook.args.length ≤ 16 && 1 ≤ hook.timeoutSeconds && hook.timeoutSeconds ≤ 300

/-- `[A-Za-z0-9.:-]` -/
def hostChar (ch : Char) : Bool := Pattern.alnum ch || ['.', ':', '-'].contains ch

/-- `/^(?:[A-Za-z0-9][A-Za-z0-9.:-]*|::1)$/` -/
def hostPattern (host : String) : Bool :=
  Pattern.headed Pattern.alnum hostChar host || host == "::1"

/-- `/^[A-Za-z0-9_][A-Za-z0-9_.-]*\.sql$/` -/
def filenamePattern (name : String) : Bool := Pattern.ending Pattern.word Pattern.dotted ".sql" name

/-- A password that can be stored. -/
def validPassword (password : String) : Bool :=
  1 ≤ Js.length password && Js.length password ≤ 1024 && !Js.includes '\x00' password

/-- `/[\r\n]/` -/
def hasLineBreak (text : String) : Bool := text.toList.any fun ch => ch == '\r' || ch == '\n'

def isLoopback (host : String) : Bool := ["localhost", "127.0.0.1", "::1"].contains host

def maxDumpBytesLimit : Nat := 100 * 1024 ^ 3

/-- What the schema asks of an entry whatever its engine. -/
def validEntry (db : RemoteDatabase) : Bool :=
  db.databaseId.all validDatabaseId && Js.length db.host ≤ 253 && hostPattern db.host &&
    1 ≤ db.port && db.port ≤ 65535 &&
    Pattern.headed Pattern.word Pattern.dashed db.database && db.database.toList.length ≤ 64 &&
    Pattern.headed Pattern.word Pattern.dotted db.username && db.username.toList.length ≤ 80 &&
    filenamePattern db.dumpFilename && db.dumpFilename.toList.length ≤ 100 &&
    1 ≤ db.timeoutSeconds && db.timeoutSeconds ≤ 3600 &&
    1024 ≤ db.maxDumpBytes && db.maxDumpBytes ≤ maxDumpBytesLimit &&
    db.password.all validPassword && (db.tls != .local || isLoopback db.host)

/-- What it asks of a PostgreSQL entry besides. -/
def validPostgres (db : RemoteDatabase) : Bool :=
  Js.length db.database ≤ 63 && Js.length db.username ≤ 63 && !db.includeRoutines &&
    !db.includeEvents &&
    db.password.all fun password => !hasLineBreak password

def validDatabase (db : RemoteDatabase) : Bool :=
  validEntry db && (db.engine != .postgresql || validPostgres db)

variable (fold : String → String) (cryptr : Cryptr)

/-- Artifacts and identities are told apart by the name folded with
`normalize('NFKC').toLowerCase()` and by the id. -/
def distinctEntries (databases : List RemoteDatabase) : Bool :=
  decide (databases.map fun db => fold db.dumpFilename).Nodup &&
    decide (databases.filterMap fun db => db.databaseId.filter fun id => !id.isEmpty).Nodup

def validHooks (hooks : Hooks) : Bool := hooks.preHook.all validHook && hooks.postHook.all validHook

def validLifecycle : RemoteLifecycle → Bool
  | .single database hooks =>
      database.all (fun db => validDatabase db && db.engine != .postgresql &&
        db.databaseId.isNone) &&
        validHooks hooks
  | .collection databases hooks =>
      databases.all validDatabase && databases.length ≤ maxPlanDatabases && validHooks hooks &&
        distinctEntries fold databases

def parseRemoteLifecycle (value : RemoteLifecycle) : Except AppError RemoteLifecycle :=
  if validLifecycle fold value then .ok value
  else .error ⟨400, "Remote backup lifecycle configuration is invalid."⟩

theorem parseRemoteLifecycle_eq_ok {fold : String → String} {value value' : RemoteLifecycle} :
    parseRemoteLifecycle fold value = .ok value' ↔
    validLifecycle fold value = true ∧ value = value' := by
  unfold parseRemoteLifecycle
  split
  · next h => simp [h]
  · next h => simp [h]

/-! ## Taking passwords out -/

/-- What edits draw at random, in the order they draw it: UUIDs without their dashes, and
salts. -/
structure Entropy where
  uuid : Nat → String
  salt : Nat → Nat
  uuid_format (n : Nat) : (uuid n).toList.length = 32 ∧ (uuid n).toList.all Pattern.alnum = true

/-- The id of a new entry. -/
def Entropy.databaseId (rnd : Entropy) (n : Nat) : String := "db_" ++ rnd.uuid n

/-- `existing[0].databaseId` for a single-database request on a plan with one database. -/
def inheritedIdOf (input : RemoteLifecycle) (existing : List RemoteDatabase) : Option String :=
  match input, existing with
  | .single _ _, [only] => only.databaseId
  | _, _ => none

/-- The new password encrypted, or the credential as it is stored. -/
def encryptedPasswordOf (old : Option DatabaseCredential) (entry : RemoteDatabase) (salt : Nat) :
    Option String :=
  match entry.password with
  | none => old.map DatabaseCredential.encryptedPassword
  | some password => some (cryptr.encrypt salt password)

/-- One entry of the request: the entry to save and its credential. -/
def prepareEntry (rnd : Entropy) (input : RemoteLifecycle) (existing : List RemoteDatabase)
    (credentials : List DatabaseCredential) (index : Nat) (entry : RemoteDatabase) :
    Except AppError (RemoteDatabase × DatabaseCredential) := do
  let known := entry.databaseId.or (inheritedIdOf input existing)
  let databaseId := known.getD (rnd.databaseId index)
  let old := credentials.find? fun credential => credential.databaseId == databaseId
  refuseIf (known.isSome &&
      (old.isNone || !existing.any fun db => db.databaseId == some databaseId))
    ⟨400, "Database entry identity does not belong to this plan."⟩
  match (encryptedPasswordOf cryptr old entry (rnd.salt index)).filter
      fun text => !text.isEmpty with
  | none => .error ⟨400, "A database password is required for each new database entry."⟩
  | some encryptedPassword =>
      .ok ({ entry with
          databaseId := some databaseId, password := none, passwordConfigured := some true },
        ⟨databaseId, encryptedPassword, (old.map DatabaseCredential.legacySingle).getD false⟩)

/-- The entries of the request in order; `drawn` ids and salts were drawn before. -/
def prepareEntries (rnd : Entropy) (drawn : Nat) (input : RemoteLifecycle)
    (existing : List RemoteDatabase) (credentials : List DatabaseCredential) :
    Except AppError (List (RemoteDatabase × DatabaseCredential)) :=
  ((lifecycleDatabases input).zipIdx drawn).mapM fun entry =>
    prepareEntry cryptr rnd input existing credentials entry.2 entry.1

def existingDatabases (previous : Option RemoteLifecycle) : Except AppError (List RemoteDatabase) :=
  match previous with
  | none => .ok []
  | some previous => (parseRemoteLifecycle fold previous).map lifecycleDatabases

def RemoteLifecycle.isSingle : RemoteLifecycle → Bool
  | single _ _ => true
  | collection _ _ => false

def Hooks.isEmpty (hooks : Hooks) : Bool := hooks.preHook.isNone && hooks.postHook.isNone

/-- The lifecycle and the credentials to store, from the request, the stored lifecycle and
the stored credentials. -/
def prepareRemoteLifecycleCollection (rnd : Entropy) (drawn : Nat) (request : RemoteLifecycle)
    (previous : Option RemoteLifecycle) (credentials : List DatabaseCredential) :
    Except AppError (Option RemoteLifecycle × List DatabaseCredential) := do
  let input ← parseRemoteLifecycle fold request
  let existing ← existingDatabases fold previous
  refuseIf (input.isSingle && !(lifecycleDatabases input).isEmpty && decide (existing.length > 1))
    ⟨400, "A single-database request cannot replace a multi-database plan."⟩
  let prepared ← prepareEntries cryptr rnd drawn input existing credentials
  let saved := prepared.map Prod.fst
  return (if saved.isEmpty && input.hooks.isEmpty then none
    else some (.collection saved input.hooks),
    prepared.map Prod.snd)

/-! ## Putting them back -/

def credentialsUnavailable : AppError := ⟨500, "Database backup credentials could not be prepared."⟩

def decryptPassword (encrypted : String) : Except AppError String :=
  match cryptr.decrypt encrypted with
  | some password => .ok password
  | none => .error credentialsUnavailable

/-- An entry with its password; what is thrown here is not shown. -/
def materializeEntry (credentials : List DatabaseCredential) (entry : RemoteDatabase) :
    Except AppError RemoteDatabase :=
  match credentials.find? fun item => some item.databaseId == entry.databaseId with
  | none => .error credentialsUnavailable
  | some credential => do
      refuseIf (!entry.databaseId.any (fun id => !id.isEmpty) ||
        entry.password.isSome) credentialsUnavailable
      let password ← decryptPassword cryptr credential.encryptedPassword
      return { entry with password := some password, passwordConfigured := none }

def materializeEntries (lifecycle : RemoteLifecycle) (credentials : List DatabaseCredential) :
    Except AppError RemoteLifecycle := do
  let databases ← (lifecycleDatabases lifecycle).mapM (materializeEntry cryptr credentials)
  parseRemoteLifecycle fold (.collection databases lifecycle.hooks)

def materializeRemoteLifecycleCollection (value : RemoteLifecycle)
    (credentials : List DatabaseCredential) : Except AppError RemoteLifecycle :=
  do
  let lifecycle ← parseRemoteLifecycle fold value
  (materializeEntries fold cryptr lifecycle credentials).mapError fun _ => credentialsUnavailable

def materializeSingle (database : RemoteDatabase) (hooks : Hooks) (credential : String) :
    Except AppError RemoteLifecycle := do
  let password ← decryptPassword cryptr credential
  parseRemoteLifecycle fold
    (.single (some { database with password := some password, passwordConfigured := none }) hooks)

/-- The single-database form; without a `database`, as in version 2, the value is
returned as it is. -/
def materializeRemoteLifecycle (value : RemoteLifecycle) (credential : Option String) :
    Except AppError RemoteLifecycle := do
  let lifecycle ← parseRemoteLifecycle fold value
  match lifecycle with
  | .single (some database) hooks =>
      match database.password, credential.filter fun text => !text.isEmpty with
      | none, some encrypted =>
          (materializeSingle fold cryptr database hooks encrypted).mapError fun _ =>
            credentialsUnavailable
      | _, _ => .error credentialsUnavailable
  | other => .ok other

end Pluton.Lifecycle
