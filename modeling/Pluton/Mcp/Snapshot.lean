-- SUMMARY: The state of a plan's resources that a request is bound to, and eligibility.
import Pluton.Mcp.Tokens

/-!
# The snapshot of a plan

`snapshot` of `backend/src/mcp/McpActionService.ts`: the checks in the order of the source,
and the rows that are hashed. The preview for the administrator is left out.
-/
namespace Pluton.Mcp

open EStateM

variable (env : Env)

/-! ## What is hashed -/

/-- `SELECT id,status .. WHERE plan_id=? AND in_progress=1 ORDER BY id` -/
def inProgress (rows : List (String × String)) : List (String × String) :=
  rows.mergeSort fun a b => decide (a.1 ≤ b.1)

def Resources.running (r : Resources) (planId : String) : List (String × String) :=
  inProgress ((r.backups.filter fun row => row.planId == planId && row.inProgress).map fun row =>
    (row.id, row.status))

def Resources.restoring (r : Resources) (planId : String) : List (String × String) :=
  inProgress ((r.restores.filter fun row => row.planId == planId && row.inProgress).map fun row =>
    (row.id, row.status))

def Resources.plan (r : Resources) (planId : String) : Option PlanRow :=
  r.plans.find? (·.id == planId)

/-- The backup that the arguments name. -/
def Resources.backup (r : Resources) (args : ActionArgs) : Option BackupRow :=
  args.operation.backupId.bind fun backupId => r.backups.find? fun row =>
    row.id == backupId && row.planId == args.planId

def Resources.agent (r : Resources) (plan : PlanRow) : Option AgentRow :=
  r.agents.find? (·.deviceId == plan.sourceId)

/-- `replicaIds` -/
def PlanRow.replicaIds (plan : PlanRow) : List String := plan.settings.replication.getD []

/-- The texts of the rows under a key. -/
def rowsOf (table : List (String × String)) (key : String) : List String :=
  (table.filter (·.1 == key)).map Prod.snd

def resourceState (r : Resources) (plan : PlanRow) (args : ActionArgs) : ResourceState where
  plan := plan
  backup := r.backup args
  running := r.running plan.id
  restoring := r.restoring plan.id
  agent := r.agent plan
  sourceAccess := (r.agent plan).bind fun agent => r.sourceAccess.lookup agent.agentId
  storage := r.storages.lookup plan.storageId
  replicaStorages := (plan.replicaIds.eraseDups.mergeSort fun a b => decide (a ≤ b)).map fun id =>
    r.storages.lookup id
  recoveryPolicy := r.recoveryPolicies.lookup plan.id
  recoveryTargets := rowsOf r.recoveryTargets plan.id
  repository := r.repositories.lookup plan.id
  databaseCredential := r.databaseCredentials.lookup plan.id
  databaseEntryCredentials := rowsOf r.databaseEntryCredentials plan.id

/-! ## Eligibility -/

/-- Does the action change the plan's row? -/
def Operation.changesPlan : Operation → Bool
  | .createPlan _ => true
  | .updatePlan _ => true
  | .updateSchedule _ => true
  | .updateExclusions _ => true
  | _ => false

/-- Is something of the plan in progress? -/
def busy (r : Resources) (plan : PlanRow) : Bool :=
  plan.inProgress || !(r.running plan.id).isEmpty || !(r.restoring plan.id).isEmpty

/-- The checks on the arguments of one action. -/
def checkArguments (plan : PlanRow) : Operation → Program Unit
  | .updatePlan title => refuseIf (!env.acceptsTitle title) (fault 400 "invalid_request")
  | .updateSchedule interval =>
    refuseIf (!env.acceptsInterval (some interval) plan.settings.interval)
      (fault 400 "invalid_schedule")
  | .updateExclusions exclusions => do
    refuseIf (plan.sourceId == "main") (fault 409 "managed_agent_required")
    match env.parseBackupExclusions exclusions with
    | none => throw (fault 400 "invalid_exclusions")
    | some parsed =>
      refuseIf (parsed.any ["*", "**", "**/*", "*/*"].contains) (fault 400 "unsafe_exclusions")
  | _ => pure ()

/-- The checks on the template of a new plan. -/
def checkTemplate (plan : PlanRow) (agent : Option AgentRow) (tokenId actionId : String) :
    Operation → Program Unit
  | .createPlan title => do
    let token ← active env tokenId
    refuseIf (agent.all (fun agent => !token.configuration.agentIds.contains agent.agentId) ||
      !token.configuration.storageIds.contains plan.storageId || plan.settings.remoteLifecycle ||
      plan.settings.replication.isSome || plan.settings.scripts) (fault 409 "template_not_eligible")
    refuseIf (!env.acceptsInterval none plan.settings.interval) internalError
    refuseIf (!env.acceptsPlan plan title (plan.storagePath ++ "-mcp-" ++ actionId))
      (fault 400 "invalid_request")
  | _ => pure ()

/-- `snapshot`, as far as its hash. -/
def snapshot (args : ActionArgs) (tokenId actionId : String) : Program String := do
  let w ← get
  let r := w.database.resources
  match r.plan args.planId with
  | none => throw (fault 404 "eligible_plan_not_found")
  | some plan => do
    refuseIf (plan.method != "backup" || plan.sourceType != "device")
      (fault 404 "eligible_plan_not_found")
    let backup := r.backup args
    refuseIf (args.operation.backupId.isSome && backup.isNone) (fault 404 "not_found")
    refuseIf (args.operation == .backupNow && (!plan.active || busy r plan))
      (fault 409 "plan_paused_or_busy")
    refuseIf (args.operation.action == "cancel_backup" && backup.all (!·.inProgress))
      (fault 409 "backup_not_running")
    refuseIf (args.operation.changesPlan && busy r plan) (fault 409 "plan_busy")
    refuseIf ((args.operation == .pausePlan && !plan.active) ||
      (args.operation == .resumePlan && plan.active))
      (fault 409 "plan_state_conflict")
    checkArguments env plan args.operation
    let agent := r.agent plan
    refuseIf (agent.any (·.revoked)) (fault 409 "agent_unavailable")
    refuseIf (r.storages.lookup plan.storageId).isNone (fault 404 "storage_not_found")
    let token ← active env tokenId
    refuseIf (50 < plan.replicaIds.length || plan.replicaIds.any fun id =>
      !token.configuration.storageIds.contains id)
      (fault 403 "replication_resource_not_granted")
    refuseIf (!token.configuration.storageIds.contains plan.storageId ||
      (plan.sourceId != "main" && agent.all fun agent =>
        !token.configuration.agentIds.contains agent.agentId))
      (fault 403 "resource_not_granted")
    checkTemplate env plan agent tokenId actionId args.operation
    refuseIf (args.operation.action == "recovery_test" &&
      (backup.all (fun backup => backup.success != some true || backup.inProgress) || agent.isNone))
      (fault 409 "recovery_candidate_not_eligible")
    refuseIf (args.operation.action == "recovery_test" &&
      !env.acceptsRecoveryPolicy (r.recoveryPolicies.lookup plan.id))
      (fault 400 "invalid_request")
    pure (env.hashState (resourceState r plan args))

end Pluton.Mcp
