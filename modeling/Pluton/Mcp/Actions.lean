-- SUMMARY: The MCP actions: their requests, approvals and ends, and the steps of the gateway.
import Pluton.Mcp.Snapshot

/-!
# MCP actions

`McpActionService` of `backend/src/mcp/McpActionService.ts`. What a program does up to its
first `await` is one step, and what it does after one is another: an approval claims its
action and enters the domain service in one step and records the outcome in a later one.
The audit log is left out, and so is what `present` notes of a backup that has ended.
-/
namespace Pluton.Mcp

open EStateM

variable (env : Env)

/-! ## The table -/

def Database.action (db : Database) (id : String) : Option ActionRow :=
  db.actions.find? (·.id == id)

/-- `status IN ('pending_approval','executing','uncertain')` -/
def Status.busy : Status → Bool
  | .pendingApproval => true
  | .executing => true
  | .uncertain => true
  | _ => false

/-- The actions that hold their plan. -/
def Database.busy (db : Database) : List ActionRow := db.actions.filter (·.status.busy)

def expireRow (id : String) : Program Unit := do
  let t ← now env
  updateActions (·.id == id) fun row =>
    { row with status := .expired, completedAt := some t, outcomeCode := some "approval_expired" }

def expire : Program Unit := transaction do
  let t ← now env
  let w ← get
  let expired :=
    w.database.actions.filter fun row => row.status == .pendingApproval && row.expiresAt ≤ t
  expired.forM fun row => expireRow env row.id

/-! ## Requests -/

/-- Is there a text that is not empty? -/
def given (text : Option String) : Bool := text.any (· != "")

def admitRequest (nativeTokenId : Option String) (args : ActionArgs)
    (expectedRevision : Option Nat) : Program NativeToken := do
  refuseIf (!given nativeTokenId) (fault 403 "native_write_authorization_required")
  let token ← active env (nativeTokenId.getD "")
  let w ← get
  refuseIf (!w.database.policy.enabled || w.database.policy.disabledTools.contains args.tool)
    (fault 403 "insufficient_scope")
  let granted ← can env token.id args.tool (some args.planId)
  refuseIf (!granted) (fault 403 "insufficient_scope")
  refuseIf (expectedRevision.any (· != token.revision)) (fault 409 "authorization_changed")
  pure token

/-- How many actions of a token, and how many in all, may hold a plan. -/
def tokenActions : Nat := 10

def allActions : Nat := 100

def insertAction (row : ActionRow) : Program Unit := do
  let w ← get
  refuseIf (w.database.action row.id).isSome internalError
  setDatabase fun db => { db with actions := db.actions ++ [row] }

/-- `submit`; `id` is the one that is drawn. -/
def submit (nativeTokenId : Option String) (id : String) (args : ActionArgs) : Program ActionRow :=
  do
  let token ← admitRequest env nativeTokenId args none
  transaction do
    expire env
    let w ← get
    match w.database.actions.find? fun row =>
      row.tokenId == token.id && row.args.idempotencyKey == args.idempotencyKey with
    | some old => do
      refuseIf (old.argumentsHash != env.hashArguments args) (fault 409 "idempotency_conflict")
      pure old
    | none => do
      refuseIf (tokenActions ≤ (w.database.busy.filter (·.tokenId == token.id)).length ||
        allActions ≤ w.database.busy.length) (fault 429 "pending_action_limit")
      refuseIf (w.database.busy.any (·.args.planId == args.planId))
        (fault 409 "plan_action_conflict")
      let stateHash ← snapshot env args token.id id
      let t ← now env
      let createdAt ← now env
      let row : ActionRow :=
        { id := id, tokenId := token.id, tokenRevision := token.revision, args := args
          argumentsHash := env.hashArguments args, stateHash := stateHash, createdAt := createdAt
          expiresAt := min (t + 900000) token.expiresAt }
      insertAction row
      pure row

/-- `status`; the one that asks must be allowed to request actions. -/
def status (nativeTokenId : Option String) (id : String) : Program ActionRow := do
  refuseIf (!given nativeTokenId) (fault 403 "insufficient_scope")
  -- `assertActive` first
  let _ ← active env (nativeTokenId.getD "")
  let token ← active env (nativeTokenId.getD "")
  refuseIf (token.configuration.mode == .read) (fault 403 "insufficient_scope")
  expire env
  let w ← get
  match w.database.action id with
  | none => throw (fault 404 "not_found")
  | some row => do
    refuseIf (some row.tokenId != nativeTokenId) (fault 404 "not_found")
    pure row

/-! ## Decisions -/

def reject (id actor : String) : Program Unit := transaction do
  expire env
  let w ← get
  refuseIf ((w.database.action id).all (·.status != .pendingApproval))
    (fault 409 "action_not_pending")
  let decidedAt ← now env
  let completedAt ← now env
  updateActions (·.id == id) fun row =>
    { row with status := .rejected, decidedBy := some actor, decidedAt := some decidedAt,
               completedAt := some completedAt }

/-- The transaction of `approve`, which claims the action. -/
def claim (id actor confirmationHash : String) : Program ActionRow := transaction do
  expire env
  let w ← get
  match w.database.action id with
  | none => throw (fault 409 "action_not_pending")
  | some row => do
    refuseIf (row.status != .pendingApproval) (fault 409 "action_not_pending")
    refuseIf ("mcp-token:".isPrefixOf actor || confirmationHash != row.argumentsHash)
      (fault 403 "human_confirmation_required")
    refuseIf (env.hashArguments row.args != row.argumentsHash) (fault 409 "action_binding_invalid")
    let token ← active env row.tokenId
    let _ ← admitRequest env (some token.id) row.args (some row.tokenRevision)
    let stateHash ← snapshot env row.args token.id row.id
    refuseIf (stateHash != row.stateHash) (fault 409 "resource_changed_request_again")
    let t ← now env
    refuseIf (row.expiresAt ≤ t) (fault 409 "approval_expired")
    let _ ← admitRequest env (some token.id) row.args (some row.tokenRevision)
    let decidedAt ← now env
    updateActions (fun row => row.id == id && row.status == .pendingApproval) fun row =>
      { row with status := .executing, decidedBy := some actor, decidedAt := some decidedAt }
    pure row

/-- `approve` up to the first `await` of the domain service. -/
def approve (id actor confirmationHash : String) : Program Unit := do
  expire env
  let row ← claim env id actor confirmationHash
  modify fun w => { w with running := w.running ++ [{ row := row, actor := actor }],
                           entered := w.entered ++ [row.id] }

/-- `complete`; `commits` is whether the database takes it. -/
def complete (commits : Bool) (row : ActionRow) (status : Status) (code : String)
    (resultId : Option String) : Program Unit :=
  transaction do
    let t ← now env
    refuseIf (!commits) internalError
    updateActions (·.id == row.id) fun row =>
      { row with status := status, completedAt := some t, outcomeCode := some code,
                 resultId := resultId }

/-- What became of a domain service: it threw, or it returned and there is a result or none. -/
inductive Outcome where
  | threw
  | returned (resultId : Option String)

/-- `approve` after the `await`; `first` and `second` are whether the
database takes what is recorded. -/
def settle (i : Nat) (outcome : Outcome) (first second : Bool) : Program Unit := do
  let w ← get
  match w.running[i]? with
  | none => pure ()
  | some claimed => do
    modify fun w => { w with running := w.running.eraseIdx i }
    let recorded ← observe do
      match outcome with
      | .threw => throw internalError
      | .returned resultId =>
          complete env first claimed.row .dispatched "domain_service_accepted" resultId
    match recorded with
    | .ok _ => pure ()
    | .error _ =>
        complete env second claimed.row .uncertain "domain_failure_requires_reconciliation" none

def reconcile (id : String) : Program Unit := transaction do
  let w ← get
  refuseIf ((w.database.action id).all (·.status != .uncertain)) (fault 409 "action_not_uncertain")
  let t ← now env
  updateActions (·.id == id) fun row =>
    { row with status := .failed, outcomeCode := some "operator_reconciled_no_replay",
               completedAt := some t }

/-! ## The gateway -/

def recoverInterrupted : Program Unit := transaction do
  expire env
  updateActions (·.status == .executing) fun row =>
    { row with status := .uncertain, outcomeCode := some "restart_requires_reconciliation" }

/-- The process stops, and another starts. -/
def restart : Program Unit := do
  modify fun w => { w with running := [] }
  recoverInterrupted env

inductive Label where
  | submit (nativeTokenId : Option String) (id : String) (args : ActionArgs)
  | approve (id actor confirmationHash : String)
  /-- the process stops when the action is claimed and its service is not entered yet -/
  | interrupted (id actor confirmationHash : String)
  | settle (i : Nat) (outcome : Outcome) (first second : Bool)
  | reject (id actor : String)
  | reconcile (id : String)
  | status (nativeTokenId : Option String) (id : String)
  /-- `list` and `pendingCount` -/
  | list
  | createToken (value : TokenInput) (actor id : String)
  | edit (id : String) (value : TokenInput)
  | setDisabled (id : String) (disabled : Bool)
  | revoke (id : String)
  | rotate (id : String) (ttlHours : Nat) (actor newId : String)
  | revokeAll
  | setPolicy (policy : Policy)
  /-- the domain services, and whatever else writes the rows of plans -/
  | resources (r : Resources)
  | restart

def program : Label → Program Unit
  | .submit nativeTokenId id args => discard (submit env nativeTokenId id args)
  | .approve id actor confirmationHash => approve env id actor confirmationHash
  | .interrupted id actor confirmationHash => do
    expire env
    let _ ← claim env id actor confirmationHash
    restart env
  | .settle i outcome first second => settle env i outcome first second
  | .reject id actor => reject env id actor
  | .reconcile id => reconcile env id
  | .status nativeTokenId id => discard (status env nativeTokenId id)
  | .list => expire env
  | .createToken value actor id => createToken env value actor id
  | .edit id value => edit env id value
  | .setDisabled id disabled => setDisabled id disabled
  | .revoke id => revoke env id
  | .rotate id ttlHours actor newId => rotate env id ttlHours actor newId
  | .revokeAll => revokeAll env
  | .setPolicy policy => setPolicy policy
  | .resources r => setDatabase fun db => { db with resources := r }
  | .restart => restart env

def step (w : World) (l : Label) : World := (program env l).after w

end Pluton.Mcp
