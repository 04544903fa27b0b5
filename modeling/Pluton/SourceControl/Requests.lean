-- SUMMARY: The life of a source access request, and the steps of the store.
import Pluton.SourceControl.Store

/-!
# Requests

The operations of `AgentSourceAccessStore` on requests, and the store as a system: its
operations, the leases of the command queue, and what other stores write to the tables
that are not its own.
-/
namespace Pluton.SourceControl

open Except (refuseIf)
open Namespaces (Failure)
open Agent (AgentCommandState)

variable (db : Tables)

/-! ## Creation -/

structure CreateRequest where
  id : String
  commandId : String
  agentId : String
  deviceId : String
  kind : RequestKind
  requestedMode : Option AuthorizationMode := none
  setupExpiresAt : Option Nat := none
  expectedVersion : Nat
  expectedHostPolicyRevision : String
  roots : List String
  confirmedAffectedPlanIds : List String
  now : Nat
  freshSince : Nat

/-- Not seen, or seen outside the time from `freshSince` to `now`. -/
def unseen (seen : Option Nat) (freshSince now : Nat) : Bool :=
  seen.all fun seen => seen < freshSince || now < seen

def refuseModeSetup (input : CreateRequest) (identity : AgentIdentity)
    (state : AgentSourceAccessState) : Except Failure Unit :=
  do
  let allPlans := readPlans db input.deviceId
  refuseIf (maxRoots < (state.report.approvedRoots ++ input.roots).dedup.length)
    (.app 400 "The combined strict and delegated host scope supports at most 32 roots.")
  refuseIf (identity.sourceAccessModesVersion != some 1 || input.requestedMode.isNone ||
      input.setupExpiresAt.isNone ||
      !sourceReportHealthy state.report)
    (.app 409 "Update this agent and refresh its healthy mode report first.")
  refuseIf (!sameSourceRoots (allPlans.map (·.id)) input.confirmedAffectedPlanIds)
    (.app 409 "Confirm every backup plan on this agent before changing authorization mode.")
  refuseIf (allPlans.any (·.isActive))
    (.app 409 "Pause every backup plan on this agent before changing authorization mode.")
  refuseIf (activeOperations db input.agentId input.deviceId none != 0)
    (.app 409
      "Wait for every queued or running agent operation before changing authorization mode.")

def refuseApply (input : CreateRequest) (state : AgentSourceAccessState) : Except Failure Unit := do
  let affected := affectedPlans db input.deviceId state.selectedRoots input.roots
  refuseIf (!sameSourceRoots (affected.map (·.id)) input.confirmedAffectedPlanIds)
    (.app 409 "Confirm the exact affected backup plans before removing source access.")
  refuseIf (affected.any (·.isActive))
    (.app 409 "Pause affected backup plans before removing source access.")
  refuseIf (!affected.isEmpty && backupRunningOf db affected)
    (.app 409
      "Wait for affected queued or running backups to finish before removing source access.")

/-- The checks of a creation, in their order. -/
def refuseRequest (input : CreateRequest) : Except Failure Unit := do
  let some identity :=
    db.identities.find? fun row => row.agentId == input.agentId && row.deviceId == input.deviceId
    | .error (.app 409 "The remote agent must be online and support Source Access.")
  refuseIf (identity.revokedAt.isSome || unseen identity.lastSeen input.freshSince input.now ||
      identity.sourceAccessVersion != some 1)
    (.app 409 "The remote agent must be online and support Source Access.")
  let some state := getState db input.agentId | .error (.app 409
    "Refresh Source Access before submitting a request.")
  refuseIf (unseen (some state.receivedAt) input.freshSince input.now)
    (.app 409 "Refresh Source Access before submitting a request.")
  refuseIf (state.report.effectiveVersion != input.expectedVersion ||
      state.report.hostPolicyRevision != input.expectedHostPolicyRevision)
    (.app 409 "Source Access changed. Refresh it and review the selection again.")
  refuseIf (input.kind == .apply && !sourceReportHealthy state.report)
    (.app 409 "Resolve the host source policy error before applying a selection.")
  refuseIf (db.requests.any fun request =>
    request.agentId == input.agentId && request.status.isOpen)
    (.app 409 "Another Source Access request is still running.")
  refuseIf (modeFrozen db input.agentId input.now).isSome
    (.app 409
      "A host authorization mode setup is pending. Wait for host confirmation or its expiry.")
  match input.kind with
  | .modeSetup => refuseModeSetup db input identity state
  | .apply => refuseApply db input state
  | .validate => return ()

/-- The command of a new request. Its row is stamped by the clock of the database. -/
def CreateRequest.command (input : CreateRequest) : AgentCommand where
  id := input.commandId
  agentId := input.agentId
  type := input.kind.commandType
  createdAt := Agent.column input.now
  idempotencyKey := "source-access:" ++ input.id
  request := some {
    requestId := input.id
    expectedVersion := input.expectedVersion
    expectedHostPolicyRevision := input.expectedHostPolicyRevision
    roots := input.roots
    authorizationMode := if input.kind = .modeSetup then input.requestedMode else none
    expiresAt := if input.kind = .modeSetup then input.setupExpiresAt else none }

def CreateRequest.row (input : CreateRequest) : AgentSourceAccessRequest where
  id := input.id
  agentId := input.agentId
  commandId := input.commandId
  kind := input.kind
  requestedMode := input.requestedMode
  setupExpiresAt := input.setupExpiresAt
  expectedVersion := input.expectedVersion
  expectedHostPolicyRevision := input.expectedHostPolicyRevision
  roots := input.roots
  confirmedAffectedPlanIds := input.confirmedAffectedPlanIds
  createdAt := input.now

def createRequest (input : CreateRequest) : Except Failure Tables := do
  refuseRequest db input
  refuseIf (db.commands.any fun command =>
    command.id == input.commandId ||
    command.idempotencyKey == input.command.idempotencyKey) .constraint
  refuseIf (db.requests.any fun request => request.id == input.id ||
    request.commandId == input.commandId) .constraint
  return { db with commands := db.commands ++ [input.command],
                   requests := db.requests ++ [input.row] }

/-! ## Delivery -/

def stalePolicy (request : AgentSourceAccessRequest) (state : AgentSourceAccessState)
    (now freshSince : Nat) : Bool :=
  unseen (some state.receivedAt) freshSince now ||
    state.report.effectiveVersion != request.expectedVersion ||
    state.report.hostPolicyRevision != request.expectedHostPolicyRevision

def drainRequired (request : AgentSourceAccessRequest) (now : Nat) : Bool :=
  match db.identities.find? fun row => row.agentId == request.agentId with
  | none => true
  | some identity =>
      let allPlans := readPlans db identity.deviceId
      request.setupExpiresAt.all (fun expiry => expiry ≤ now) || allPlans.any (·.isActive) ||
        !sameSourceRoots (allPlans.map (·.id)) request.confirmedAffectedPlanIds ||
        activeOperations db request.agentId identity.deviceId (some request.commandId) != 0

def removalConflict (request : AgentSourceAccessRequest) (state : AgentSourceAccessState) : Bool :=
  let affected :=
    match db.identities.find? fun row => row.agentId == request.agentId with
    | some identity => affectedPlans db identity.deviceId state.selectedRoots request.roots
    | none => []
  !sourceReportHealthy state.report ||
    !sameSourceRoots (affected.map (·.id)) request.confirmedAffectedPlanIds ||
    affected.any (·.isActive) || (!affected.isEmpty && backupRunningOf db affected)

def rejection (request : AgentSourceAccessRequest) (state : Option AgentSourceAccessState)
    (now freshSince : Nat) :
    Option String :=
  match state with
  | none => some "source-policy-stale"
  | some state =>
      if stalePolicy request state now freshSince then some "source-policy-stale"
      else match request.kind with
        | .modeSetup =>
            if drainRequired db request now then some "source-mode-drain-required" else none
        | .apply =>
            if removalConflict db request state then some "source-removal-conflict" else none
        | .validate => none

/-- The request was applied and the Agent still reports it. -/
def stillApplied (request : AgentSourceAccessRequest) (state : Option AgentSourceAccessState) :
    Bool :=
  request.status == .applied && state.any fun state => matchesAppliedReport request state.report

def markDelivered (agentId commandId : String) (now freshSince : Nat) : Tables × Bool :=
  match getRequestForCommand db agentId commandId with
  | none => (db, false)
  | some request =>
      let state := getState db agentId
      if request.kind == .modeSetup && request.status == .applied then
        (completeCommand db commandId now, false)
      else if stillApplied request state then (db, true)
      else match rejection db request state now freshSince with
        | some code =>
            (settleCommand
              (settle db request.id .rejected code (some now)) commandId .failed now code, false)
        | none =>
            ({ db with
              requests :=
                Table.update db.requests (fun row => row.id == request.id && row.status == .queued)
                fun row => { row with status := .validating } }, true)

/-! ## Completion -/

structure ModeSetupResult where
  requestId : String
  authorizationMode : AuthorizationMode
  delegatedRoots : List String
  expiresAt : Nat

structure SourceAccessCommandResult where
  sourceAccess : AcceptedReport
  validation : Option (List SourceAccessValidation) := none
  modeSetup : Option ModeSetupResult := none

structure Completion where
  agentId : String
  commandId : String
  leaseToken : String
  sequence : Nat
  success : Bool
  result : Option SourceAccessCommandResult := none
  signedTimestamp : Int
  now : Nat

def Completion.report (input : Completion) : Option SourceAccessReport :=
  input.result.map (·.sourceAccess.toSourceAccessReport)

def Completion.validation (input : Completion) : Option (List SourceAccessValidation) :=
  input.result.bind (·.validation)

/-- The command is not the live command of the request, or its lease or sequence is over. -/
def notLive (command : AgentCommand) (input : Completion) : Bool :=
  !command.state.active ||
    command.leaseExpiresAt.all (fun expiry => Agent.date expiry ≤ input.now) ||
    input.sequence ≤ command.lastEventSequence

def payloadDiffers (command : AgentCommand) (request : AgentSourceAccessRequest) : Bool :=
  command.request.all fun payload =>
    payload.requestId != request.id || payload.expectedVersion != request.expectedVersion ||
      payload.expectedHostPolicyRevision != request.expectedHostPolicyRevision ||
      !sameSourceRoots payload.roots request.roots

def validationInvalid (request : AgentSourceAccessRequest) (input : Completion) : Bool :=
  input.validation.any (fun validation =>
      (validation.map (·.requestedPath)).dedup.length != validation.length ||
        validation.any fun item => !request.roots.contains item.requestedPath) ||
    (request.kind == .validate && input.success &&
      input.validation.all fun validation => validation.length != request.roots.length)

def setupPrepared (request : AgentSourceAccessRequest) (setup : ModeSetupResult)
    (report : SourceAccessReport) (now : Nat) : Bool :=
  setup.requestId == request.id && some setup.authorizationMode == request.requestedMode &&
    some setup.expiresAt == request.setupExpiresAt &&
    sameSourceRoots setup.delegatedRoots request.roots &&
    report.hostPolicyRevision == request.expectedHostPolicyRevision &&
    report.effectiveVersion == request.expectedVersion && now < setup.expiresAt

def validated (request : AgentSourceAccessRequest) (report : SourceAccessReport)
    (validation : Option (List SourceAccessValidation)) : Bool :=
  report.effectiveVersion == request.expectedVersion &&
    report.hostPolicyRevision == request.expectedHostPolicyRevision &&
    (given report.policyError).isNone &&
    !validation.any fun validation => validation.any (·.status == .rejected)

/-- The status and the code that a completion gives its request. -/
def outcome (request : AgentSourceAccessRequest) (input : Completion) :
    SourceAccessRequestStatus × String :=
  let refused := (SourceAccessRequestStatus.rejected, "source-access-rejected")
  match (if request.kind == .modeSetup && input.success then input.result.bind (·.modeSetup)
    else none), input.report with
  | some setup, some report =>
      if setupPrepared request setup report input.now then
        (.pendingHostSetup, "source-mode-host-setup-required")
      else refused
  | _, report =>
      if request.kind == .apply && input.success && report.any (matchesAppliedReport request) then
        (.applied, "source-selection-applied")
      else if input.validation.any (fun validation =>
        validation.any (·.status == .pendingHostApproval)) then
        (.pendingHostApproval, "source-host-approval-required")
      else if request.kind == .validate && input.success &&
          report.any (fun report => validated request report input.validation) then
        (.validated, "source-validation-complete")
      else refused

/-- The outcomes that complete the command. -/
def succeeded (status : SourceAccessRequestStatus) : Bool :=
  [SourceAccessRequestStatus.applied, .validated, .pendingHostSetup].contains status

/-- What a completion writes once its checks have passed. -/
def commit (request : AgentSourceAccessRequest) (input : Completion) : Tables :=
  let (status, resultCode) := outcome request input
  let db :=
    match input.report with
    | some report =>
        writeReport db input.agentId report input.signedTimestamp input.now (request.kind ==
          .apply && input.success)
    | none => db
  let db := updateRequest db request.id fun row =>
    { row with
      status := status
      validation := input.validation
      resultCode := some resultCode
      completedAt := some input.now }
  updateCommand db input.commandId fun command =>
    { command with
      state := if succeeded status then .completed else .failed
      completedAt := some (Agent.column input.now)
      lastEventSequence := input.sequence
      lastError := if succeeded status then none else some resultCode }

/-- The completion is not one of this command, this request and this lease. -/
def foreign (command : AgentCommand) (request : AgentSourceAccessRequest) (input : Completion) :
    Bool :=
  command.leaseOwner != some input.leaseToken || command.type != request.kind.commandType

def complete (input : Completion) : Tables × Bool :=
  match db.commands.find? fun command => command.id == input.commandId &&
    command.agentId == input.agentId,
      getRequestForCommand db input.agentId input.commandId with
  | some command, some request =>
      if foreign command request input then (db, false)
      -- A retry can acknowledge an outcome, never replace it.
      else if command.state.terminal then (db, true)
      else if request.kind == .modeSetup && request.status == .applied then
        (completeCommand db input.commandId input.now, true)
      else if notLive command input || payloadDiffers command request ||
        validationInvalid request input then (db, false)
      else (commit db request input, true)
  | _, _ => (db, false)

/-! ## Cancellation -/

def cancel (agentId requestId : String) (now : Nat) : Tables × Bool :=
  match requestOf db agentId requestId with
  | none => (db, false)
  | some request =>
      if ! [SourceAccessRequestStatus.queued, .pendingHostApproval].contains request.status then
        (db, false)
      else match db.commands.find? fun command => command.id == request.commandId with
        | none => (db, false)
        | some command =>
            if ! [AgentCommandState.queued, .failed].contains command.state then (db, false)
            else
              (settle (settleCommand db request.commandId .cancelled now "source-request-cancelled")
              requestId .cancelled "source-request-cancelled" (some now), true)

/-! ## Reconciliation -/

/-- The open requests of the Agent beside the state of their commands. -/
def openRows (agentId : String) : List (AgentSourceAccessRequest × AgentCommandState) :=
  (db.requests.filter fun request =>
      request.agentId == agentId &&
      (request.status.isOpen || request.status == .pendingHostSetup)).filterMap
    fun request =>
      (db.commands.find? fun command => command.id == request.commandId).map fun command =>
        (request, command.state)

/-- The status and the code that follow from the state of a request's command. -/
def reconciled (request : AgentSourceAccessRequest) (state : Option AgentSourceAccessState) :
    AgentCommandState → Option (SourceAccessRequestStatus × String)
  | .cancelled => some (.cancelled, "source-command-cancelled")
  | .failed => some (.rejected, "source-command-failed")
  | .expired => some (.rejected, "source-command-expired")
  | .completed =>
      if state.any fun state => matchesAppliedReport request state.report then
        some (.applied, "source-selection-applied")
      else some (.validating, "source-outcome-unconfirmed")
  | .queued => none
  | .leased => none
  | .acknowledged => none
  | .running => none

def reconcileRow (state : Option AgentSourceAccessState) (now : Nat) (db : Tables)
    (row : AgentSourceAccessRequest × AgentCommandState) : Tables :=
  let (request, commandState) := row
  if request.kind = .modeSetup then
    if request.setupExpiresAt.all fun expiry => now < expiry + requestSkewMs then db
    else settleCommand (settle db request.id .rejected "source-mode-setup-expired" (some now))
      request.commandId .expired now "source-mode-setup-expired"
  else match reconciled request state commandState with
    | none => db
    | some (status, code) =>
        if request.status = status ∧ request.resultCode = some code then db
        else settle db request.id status code (if status = .validating then none else some now)

def reconcileTerminalRequests (agentId : String) (now : Nat) : Tables :=
  (openRows db agentId).foldl (reconcileRow (getState db agentId) now) db

/-! ## The system -/

/-- `AgentStore.leaseNext` -/
def leaseNext (agentId leaseOwner : String) (leaseMs now : Nat) : Tables :=
  let commands :=
    Table.update db.commands (fun command => Agent.expireCond agentId now command.toAgentCommand)
    fun command => { command with toAgentCommand := Agent.expireSet command.toAgentCommand }
  let queued :=
    fun command : AgentCommand => decide (command.agentId = agentId ∧ command.state = .queued)
  if commands.any fun command =>
    command.agentId == agentId && command.state.active && command.leaseAfter now then
    { db with commands := commands }
  else match Table.firstBy (fun command : AgentCommand => command.createdAt) queued commands with
    | none => { db with commands := commands }
    | some candidate =>
        { db with
          commands :=
            Table.update commands (fun command =>
              Agent.leaseCond candidate.toAgentCommand command.toAgentCommand)
            fun command =>
              { command with
                toAgentCommand :=
                  Agent.leaseSet leaseOwner leaseMs now candidate.toAgentCommand
                    command.toAgentCommand } }

/-- An operation of the store, a lease of the command queue, or `elsewhere`: what other
stores write to the tables of commands, identities, plans and backups. -/
inductive Op where
  | recordHeartbeat (agentId : String) (report : AcceptedReport) (signedTimestamp : Int) (now : Nat)
  | createRequest (input : CreateRequest)
  | markDelivered (agentId commandId : String) (now freshSince : Nat)
  | complete (input : Completion)
  | cancel (agentId requestId : String) (now : Nat)
  | reconcileTerminalRequests (agentId : String) (now : Nat)
  | leaseNext (agentId leaseOwner : String) (leaseMs now : Nat)
  | elsewhere (commands : List AgentCommand) (identities : List AgentIdentity) (plans : List Plan)
      (backups : List Backup)

def step (db : Tables) : Op → Tables
  | .recordHeartbeat agentId report signedTimestamp now =>
      recordHeartbeat db agentId report.toSourceAccessReport signedTimestamp now
  | .createRequest input => (createRequest db input).toOption.getD db
  | .markDelivered agentId commandId now freshSince =>
      (markDelivered db agentId commandId now freshSince).1
  | .complete input => (complete db input).1
  | .cancel agentId requestId now => (cancel db agentId requestId now).1
  | .reconcileTerminalRequests agentId now => reconcileTerminalRequests db agentId now
  | .leaseNext agentId leaseOwner leaseMs now => leaseNext db agentId leaseOwner leaseMs now
  | .elsewhere commands identities plans backups =>
      { db with commands := commands, identities := identities, plans := plans, backups := backups }

/-- The tables after a run, from empty ones. -/
def run (ops : List Op) : Tables := ops.foldl step {}

end Pluton.SourceControl
