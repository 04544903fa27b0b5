-- SUMMARY: The agent's own parser of a backup lifecycle.
import Pluton.Json
import Pluton.Lifecycle.Remote

/-!
# The agent's lifecycle policy

`lifecyclePolicy.ts`. The agent does not rely on the server's schema: it reads the
lifecycle out of the payload field by field. A value is `none` where the source reads
`undefined`.
-/
namespace Pluton.Lifecycle.Agent

open Except

/-! ## Data -/

structure DatabaseBackup where
  databaseId : Option String
  engine : Engine
  host : String
  port : Nat
  database : String
  tls : Tls
  username : String
  password : String
  dumpFilename : String
  timeoutSeconds : Nat
  maxDumpBytes : Nat
  includeRoutines : Bool
  includeEvents : Bool
  deriving DecidableEq

/-- Version 1 has `database`, version 2 has `databases`. -/
inductive BackupLifecycle where
  | single (database : Option DatabaseBackup) (hooks : Hooks)
  | collection (databases : List DatabaseBackup) (hooks : Hooks)
  deriving DecidableEq

def BackupLifecycle.isSingle : BackupLifecycle → Bool
  | single _ _ => true
  | collection _ _ => false

def lifecycleDatabases : BackupLifecycle → List DatabaseBackup
  | .single database _ => database.toList
  | .collection databases _ => databases

/-! ## Readers -/

def invalidConfiguration : String := "Invalid lifecycle configuration."

def record : Option Json → Except String Json.Fields
  | some (.obj fields) => .ok fields
  | _ => .error invalidConfiguration

def keys (value : Json.Fields) (allowed : List String) : Except String Unit :=
  refuseIf (Json.hasOther allowed value) invalidConfiguration

def text (value : Option Json) (pattern : String → Bool) (max : Nat) : Except String String :=
  match value with
  | some (.str text) =>
      if max < Js.length text || !pattern text then .error invalidConfiguration else .ok text
  | _ => .error invalidConfiguration

def integer (value : Option Json) (min max : Nat) : Except String Nat :=
  match value with
  | some (.num value) =>
      if Json.inRange min max value then .ok value.num.toNat else .error invalidConfiguration
  | _ => .error invalidConfiguration

def bool : Option Json → Except String Bool
  | some (.bool value) => .ok value
  | _ => .error invalidConfiguration

def array (value : Option Json) (max : Nat) (e : String) : Except String (List Json) :=
  match value with
  | some (.arr items) => if max < items.length then .error e else .ok items
  | _ => .error e

/-! ## Hooks -/

def hookArg (value : Json) : Except String String := do
  let arg ← text (some value) (Pattern.all argChar) 128
  refuseIf (unsafeArg arg) "Invalid hook argument."
  return arg

def hook (value : Option Json) : Except String Hook := do
  let input ← record value
  keys input ["id", "args", "timeoutSeconds"]
  let items ← array (Json.field input "args") 16 invalidConfiguration
  let id ← text (Json.field input "id") (Pattern.headed Pattern.dashed Pattern.dotted) 100
  let args ← items.mapM hookArg
  let timeoutSeconds ← integer (Json.field input "timeoutSeconds") 1 300
  return { id, args, timeoutSeconds }

/-- A hook that may be absent. -/
def optionalHook : Option Json → Except String (Option Hook)
  | none => .ok none
  | some value => (hook (some value)).map some

def readHooks (input : Json.Fields) : Except String Hooks := do
  let preHook ← optionalHook (Json.field input "preHook")
  let postHook ← optionalHook (Json.field input "postHook")
  return { preHook, postHook }

/-! ## Databases -/

def readEngine (collection : Bool) (value : Option Json) : Except String Engine :=
  if Json.isStr "mysql" value then .ok .mysql
  else if Json.isStr "mariadb" value then .ok .mariadb
  else if collection && Json.isStr "postgresql" value then .ok .postgresql
  else .error "Invalid database engine."

def readTls (value : Option Json) : Except String Tls :=
  if Json.isStr "verify-identity" value then .ok .verifyIdentity
  else if Json.isStr "local" value then .ok .local
  else .error "Invalid database TLS policy."

/-- `["localhost", "127.0.0.1", "::1"].includes(String(value))`. An array is printed as its
items with commas between them. -/
def printsLoopback : Json → Bool
  | .str text => isLoopback text
  | .arr [item] => printsLoopback item
  | _ => false

/-- `/^[^\0]+$/` -/
def passwordPattern (text : String) : Bool := !text.isEmpty && !Js.includes '\x00' text

/-- `/^db_[A-Za-z0-9_-]+$/` -/
def databaseIdPattern (text : String) : Bool := Pattern.after "db_" Pattern.dashed text

def readDatabaseId (collection : Bool) (value : Option Json) : Except String (Option String) :=
  if collection then (text value databaseIdPattern 67).map some else .ok none

def databaseKeys (collection : Bool) : List String :=
  (if collection then ["databaseId"] else []) ++
    ["engine", "host", "port", "tls", "database", "username", "password",
      "dumpFilename", "timeoutSeconds", "maxDumpBytes", "includeRoutines", "includeEvents"]

/-- One turn of the loop over the entries. -/
def readDatabase (collection : Bool) (entry : Json) : Except String DatabaseBackup := do
  let db ← record (some entry)
  keys db (databaseKeys collection)
  let engine ← readEngine collection (Json.field db "engine")
  let tls ← readTls (Json.field db "tls")
  refuseIf (tls == .local && !(Json.field db "host").any printsLoopback)
    "Plaintext database transport is loopback-only."
  let password ← text (Json.field db "password") passwordPattern 1024
  refuseIf (engine == .postgresql && (hasLineBreak password ||
      !Json.isBool false (Json.field db "includeEvents") ||
      !Json.isBool false (Json.field db "includeRoutines")))
    "Invalid PostgreSQL configuration."
  let databaseId ← readDatabaseId collection (Json.field db "databaseId")
  let host ← text (Json.field db "host") hostPattern 253
  let port ← integer (Json.field db "port") 1 65535
  let database ← text (Json.field db "database") (Pattern.headed Pattern.word Pattern.dashed)
    (if engine == .postgresql then 63 else 64)
  let username ← text (Json.field db "username") (Pattern.headed Pattern.word Pattern.dotted)
    (if engine == .postgresql then 63 else 80)
  let dumpFilename ← text (Json.field db "dumpFilename") filenamePattern 100
  let timeoutSeconds ← integer (Json.field db "timeoutSeconds") 1 3600
  let maxDumpBytes ← integer (Json.field db "maxDumpBytes") 1024 maxDumpBytesLimit
  let includeRoutines ← bool (Json.field db "includeRoutines")
  let includeEvents ← bool (Json.field db "includeEvents")
  return { databaseId, engine, host, port, database, tls, username, password, dumpFilename,
           timeoutSeconds, maxDumpBytes, includeRoutines, includeEvents }

/-! ## The lifecycle -/

/-- Whether the version is 2. -/
def readVersion (input : Json.Fields) : Except String Bool :=
  if Json.isNat 1 (Json.field input "version") then .ok false
  else if Json.isNat 2 (Json.field input "version") then .ok true
  else .error "Invalid lifecycle version."

def readEntries (collection : Bool) (input : Json.Fields) : Except String (List Json) :=
  if collection then array (Json.field input "databases") 8 "Invalid database collection."
  else .ok (Json.field input "database").toList

def parseBackupLifecycle (fold : String → String) (value : Option Json) :
    Except String BackupLifecycle := do
  let input ← record value
  let collection ← readVersion input
  keys input ["version", if collection then "databases" else "database", "preHook", "postHook"]
  let entries ← readEntries collection input
  let databases ← entries.mapM (readDatabase collection)
  refuseIf (!decide (databases.map fun db => fold db.dumpFilename).Nodup ||
      !decide (databases.map DatabaseBackup.databaseId).Nodup)
    "Duplicate database artifact or identity."
  let hooks ← readHooks input
  return if collection then .collection databases hooks else .single databases.head? hooks

end Pluton.Lifecycle.Agent
