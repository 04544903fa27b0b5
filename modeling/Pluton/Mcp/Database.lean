-- SUMMARY: The tables behind the MCP actions, and the transactions and clock of their programs.
import Pluton.Effect
import Pluton.Table

/-!
# The tables of the MCP actions

`mcp_tokens`, `mcp_policy` and `mcp_actions`, and the rows of the plans that a request is
checked against. A text column that is only hashed, or only handed on, is left as it is.
-/
namespace Pluton.Mcp

open EStateM

/-- `McpFault`; any other error has no status. -/
structure McpFault where
  status : Option Nat
  code : String

def fault (status : Nat) (code : String) : McpFault := ⟨some status, code⟩

def internalError : McpFault := ⟨none, "internal_error"⟩

/-! ## Tokens -/

inductive Mode where
  | read
  | write
  | readWrite
  deriving DecidableEq

/-- What is read of a token's configuration, as `tokenInput` accepts it. -/
structure TokenInput where
  mode : Mode
  tools : List String
  planIds : List String
  agentIds : List String
  storageIds : List String
  ttlHours : Nat

/-- A row of `mcp_tokens`. -/
structure NativeToken where
  id : String
  configuration : TokenInput
  issuer : String
  createdAt : Nat
  expiresAt : Nat
  revokedAt : Option Nat := none
  disabled : Bool := false
  revision : Nat := 1

structure Policy where
  enabled : Bool
  disabledTools : List String

/-! ## Actions -/

/-- An action, with the arguments of its own. -/
inductive Operation where
  | backupNow
  | pausePlan
  | resumePlan
  | cancelBackup (backupId : String)
  | createPlan (title : String)
  | updatePlan (title : String)
  | updateSchedule (interval : String)
  | updateExclusions (exclusions : List String)
  | recoveryTest (backupId : String)
  deriving DecidableEq

/-- The name of the action: an `ActionName`. -/
def Operation.action : Operation → String
  | .backupNow => "backup_now"
  | .pausePlan => "pause_plan"
  | .resumePlan => "resume_plan"
  | .cancelBackup _ => "cancel_backup"
  | .createPlan _ => "create_plan"
  | .updatePlan _ => "update_plan"
  | .updateSchedule _ => "update_schedule"
  | .updateExclusions _ => "update_exclusions"
  | .recoveryTest _ => "recovery_test"

def Operation.backupId : Operation → Option String
  | .cancelBackup backupId => some backupId
  | .recoveryTest backupId => some backupId
  | _ => none

structure ActionArgs where
  planId : String
  idempotencyKey : String
  operation : Operation

/-- The tool that requests the action. -/
def ActionArgs.tool (args : ActionArgs) : String := "pluton_request_" ++ args.operation.action

inductive Status where
  | pendingApproval
  | executing
  | dispatched
  | rejected
  | expired
  | failed
  | uncertain
  deriving DecidableEq

/-- The columns of a row that a trigger keeps from being updated. -/
structure ActionInputs where
  id : String
  tokenId : String
  tokenRevision : Nat
  args : ActionArgs
  argumentsHash : String
  stateHash : String
  createdAt : Nat
  expiresAt : Nat

/-- A row of `mcp_actions`; the arguments are kept as they were parsed. -/
structure ActionRow extends ActionInputs where
  status : Status := .pendingApproval
  decidedBy : Option String := none
  decidedAt : Option Nat := none
  completedAt : Option Nat := none
  outcomeCode : Option String := none
  resultId : Option String := none

/-! ## Plans -/

structure Settings where
  interval : String
  /-- the storages of an enabled replication -/
  replication : Option (List String)
  remoteLifecycle : Bool
  /-- whether a script is enabled -/
  scripts : Bool
  /-- the whole text of the column -/
  text : String

/-- A row of `plans` without `last_backup_time`, `stats` and `verified`. -/
structure PlanRow where
  id : String
  method : String
  sourceType : String
  sourceId : String
  sourceConfig : String
  storageId : String
  storagePath : String
  settings : Settings
  active : Bool
  inProgress : Bool
  /-- the other columns -/
  columns : String

structure BackupRow where
  id : String
  planId : String
  status : String
  success : Option Bool
  inProgress : Bool
  /-- the other columns that are hashed -/
  columns : String

structure RestoreRow where
  id : String
  planId : String
  status : String
  inProgress : Bool

structure AgentRow where
  agentId : String
  deviceId : String
  revoked : Bool
  /-- the other columns that are hashed -/
  columns : String

/-- The other tables that are hashed: each row's text under its key. -/
structure Resources where
  plans : List PlanRow
  backups : List BackupRow
  restores : List RestoreRow
  agents : List AgentRow
  /-- `storages` -/
  storages : List (String × String)
  /-- `agent_source_access_state` by agent -/
  sourceAccess : List (String × String)
  /-- `recovery_test_policies` by plan -/
  recoveryPolicies : List (String × String)
  /-- `recovery_targets` by plan, in the order of their ids -/
  recoveryTargets : List (String × String)
  /-- `remote_managed_repositories` by plan -/
  repositories : List (String × String)
  /-- `remote_plan_database_credentials` by plan -/
  databaseCredentials : List (String × String)
  /-- `remote_plan_database_entry_credentials` by plan, in the order of their databases -/
  databaseEntryCredentials : List (String × String)

structure Database where
  tokens : List NativeToken
  policy : Policy
  actions : List ActionRow
  resources : Resources

/-! ## Programs -/

/-- An approval that waits for its domain service. -/
structure Claimed where
  row : ActionRow
  actor : String

structure World where
  database : Database
  /-- how often the clock was read -/
  reads : Nat := 0
  running : List Claimed := []
  /-- the actions whose domain service was entered, in that order -/
  entered : List String := []

/-- What is hashed of the resources of a plan. -/
structure ResourceState where
  plan : PlanRow
  backup : Option BackupRow
  running : List (String × String)
  restoring : List (String × String)
  agent : Option AgentRow
  sourceAccess : Option String
  storage : Option String
  replicaStorages : List (Option String)
  recoveryPolicy : Option String
  recoveryTargets : List String
  repository : Option String
  databaseCredential : Option String
  databaseEntryCredentials : List String

/-- The clock, the hashes and what the schemas of the plans accept. -/
structure Env where
  /-- `Date.now()`, by the number of the reading -/
  clock : Nat → Nat
  /-- `hash({ action, args })` -/
  hashArguments : ActionArgs → String
  /-- `hash` of the resources -/
  hashState : ResourceState → String
  /-- `planUpdateSchema` of a title -/
  acceptsTitle : String → Bool
  /-- `preparePlanInterval`, also with the interval that is set -/
  acceptsInterval : Option String → String → Bool
  /-- `parseBackupExclusions` -/
  parseBackupExclusions : List String → Option (List String)
  /-- `planInsertSchema` of a new plan with this title and path -/
  acceptsPlan : PlanRow → String → String → Bool
  /-- `recoveryPolicySchema` of the policy on record, or of the default -/
  acceptsRecoveryPolicy : Option String → Bool

abbrev Program := EStateM McpFault World

variable (env : Env)

/-- `Date.now()` -/
def now : Program Nat := do
  let w ← get
  modify fun w => { w with reads := w.reads + 1 }
  pure (env.clock w.reads)

/-- `db.transaction(..)()`: a program that throws leaves the tables as they were. -/
def transaction {α : Type} (x : Program α) : Program α := fun w =>
  match x w with
  | .ok a w' => .ok a w'
  | .error e w' => .error e { w' with database := w.database }

def setDatabase (f : Database → Database) : Program Unit :=
  modify fun w => { w with database := f w.database }

/-- `UPDATE mcp_actions SET .. WHERE ..` -/
def updateActions (cond : ActionRow → Bool) (set : ActionRow → ActionRow) : Program Unit :=
  setDatabase fun db => { db with actions := Table.update db.actions cond set }

/-- `UPDATE mcp_tokens SET .. WHERE ..` -/
def updateTokens (cond : NativeToken → Bool) (set : NativeToken → NativeToken) : Program Unit :=
  setDatabase fun db => { db with tokens := Table.update db.tokens cond set }

end Pluton.Mcp
