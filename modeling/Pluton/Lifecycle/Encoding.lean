-- SUMMARY: A lifecycle as it is written into the payload.
import Pluton.Json
import Pluton.Lifecycle.Remote

/-!
# Lifecycles as JSON

`JSON.stringify` leaves out the members that are `undefined`.
-/
namespace Pluton.Lifecycle

def Engine.name : Engine → String
  | .mysql => "mysql"
  | .mariadb => "mariadb"
  | .postgresql => "postgresql"

def Tls.name : Tls → String
  | .verifyIdentity => "verify-identity"
  | .local => "local"

def Hook.toJson (hook : Hook) : Json :=
  .obj [("id", .str hook.id), ("args", Json.texts hook.args),
    ("timeoutSeconds", .nat hook.timeoutSeconds)]

def RemoteDatabase.toJson (db : RemoteDatabase) : Json :=
  .obj (Json.optional "databaseId" (db.databaseId.map .str) ++
    [("engine", .str db.engine.name), ("host", .str db.host), ("port", .nat db.port),
      ("tls", .str db.tls.name), ("database", .str db.database), ("username", .str db.username),
      ("dumpFilename", .str db.dumpFilename), ("timeoutSeconds", .nat db.timeoutSeconds),
      ("maxDumpBytes", .nat db.maxDumpBytes), ("includeRoutines", .bool db.includeRoutines),
      ("includeEvents", .bool db.includeEvents)] ++
    Json.optional "password" (db.password.map .str) ++
    Json.optional "passwordConfigured" (db.passwordConfigured.map .bool))

def Hooks.fields (hooks : Hooks) : Json.Fields :=
  Json.optional "preHook" (hooks.preHook.map Hook.toJson) ++
    Json.optional "postHook" (hooks.postHook.map Hook.toJson)

def RemoteLifecycle.toJson : RemoteLifecycle → Json
  | .single database hooks =>
      .obj (("version", .nat 1) :: Json.optional "database"
        (database.map RemoteDatabase.toJson) ++ hooks.fields)
  | .collection databases hooks =>
      .obj (("version", .nat 2) ::
        ("databases", .arr (databases.map RemoteDatabase.toJson)) :: hooks.fields)

end Pluton.Lifecycle
