-- SUMMARY: The tables of source access and the transactions of `AgentSourceAccessStore` on them.
import Pluton.Agent.Store
import Pluton.Ends
import Pluton.Namespaces.Scope
import Pluton.SourceControl.Report

/-!
# The source access store

`backend/src/stores/AgentSourceAccessStore.ts`. An Agent has one row of state: the last
report that was accepted and the roots that were last confirmed as selected. A change of
the selection or of the mode is a request, carried to the Agent by one command.

Every operation is one transaction. A refused one leaves the tables as they were.
-/
namespace Pluton.SourceControl

open Except (refuseIf)
open Namespaces (Failure)
open Agent (AgentCommandState AgentCommandType)

/-! ## Tables -/

inductive RequestKind where
  | validate
  | apply
  | modeSetup
  deriving DecidableEq

def RequestKind.commandType : RequestKind → AgentCommandType
  | .apply => .sourceAccessApply
  | .modeSetup => .sourceAccessModeSetup
  | .validate => .sourceAccessValidate

inductive SourceAccessRequestStatus where
  | queued
  | validating
  | validated
  | pendingHostApproval
  | pendingHostSetup
  | applied
  | rejected
  | cancelled
  deriving DecidableEq

/-- `openRequestStates` -/
def SourceAccessRequestStatus.isOpen (status : SourceAccessRequestStatus) : Bool :=
  [queued, validating].contains status

inductive ValidationStatus where
  | approved
  | pendingHostApproval
  | rejected
  deriving DecidableEq

structure SourceAccessValidation where
  requestedPath : String
  canonicalPath : Option String := none
  status : ValidationStatus
  code : Option String := none
  deriving DecidableEq

/-- A row of `agent_source_access_state`. -/
structure AgentSourceAccessState where
  agentId : String
  report : SourceAccessReport
  selectedRoots : List String
  latestReportTimestamp : Int
  receivedAt : Nat

/-- A row of `agent_source_access_requests`. -/
structure AgentSourceAccessRequest where
  id : String
  agentId : String
  commandId : String
  kind : RequestKind
  requestedMode : Option AuthorizationMode := none
  setupExpiresAt : Option Nat := none
  status : SourceAccessRequestStatus := .queued
  expectedVersion : Nat
  expectedHostPolicyRevision : String
  roots : List String
  confirmedAffectedPlanIds : List String
  validation : Option (List SourceAccessValidation) := none
  resultCode : Option String := none
  createdAt : Nat
  completedAt : Option Nat := none
  deriving DecidableEq

/-- The payload of the command of a request. -/
structure SourceAccessCommandPayload where
  requestId : String
  expectedVersion : Nat
  expectedHostPolicyRevision : String
  roots : List String
  authorizationMode : Option AuthorizationMode := none
  expiresAt : Option Nat := none

/-- A row of `agent_commands`; a payload of another form is `none`. -/
structure AgentCommand extends Agent.AgentCommand where
  idempotencyKey : String
  request : Option SourceAccessCommandPayload := none

/-- A row of `agent_identities`. A capability that is not a number is `none`. -/
structure AgentIdentity where
  agentId : String
  deviceId : String
  sourceAccessVersion : Option Nat := none
  sourceAccessModesVersion : Option Nat := none
  lastSeen : Option Nat := none
  revokedAt : Option Nat := none

/-- A row of `plans`; `includes` is that of its `sourceConfig`. -/
structure Plan where
  id : String
  sourceId : String
  sourceType : String
  isActive : Bool
  includes : List String

/-- A row of `backups`. -/
structure Backup where
  sourceId : String
  planId : String
  inProgress : Bool
  status : Option String

structure Tables where
  states : List AgentSourceAccessState := []
  requests : List AgentSourceAccessRequest := []
  commands : List AgentCommand := []
  identities : List AgentIdentity := []
  plans : List Plan := []
  backups : List Backup := []

variable (db : Tables)

/-! ## Reads -/

def getState (agentId : String) : Option AgentSourceAccessState :=
  db.states.find? fun state => state.agentId == agentId

def requestOf (agentId id : String) : Option AgentSourceAccessRequest :=
  db.requests.find? fun request => request.id == id && request.agentId == agentId

def getRequestForCommand (agentId commandId : String) : Option AgentSourceAccessRequest :=
  db.requests.find? fun request => request.agentId == agentId && request.commandId == commandId

/-- `AGENT_REQUEST_SKEW_MS` -/
def requestSkewMs : Nat := 5 * 60 * 1000

def modeFrozen (agentId : String) (now : Nat) : Option AgentSourceAccessRequest :=
  db.requests.find? fun request =>
    request.agentId == agentId && request.kind == .modeSetup &&
      request.setupExpiresAt.any (fun expiry => now < expiry + requestSkewMs) &&
      ! [SourceAccessRequestStatus.applied, .cancelled].contains request.status

def Backup.running (backup : Backup) : Bool :=
  backup.inProgress || ["queued", "running", "started", "in_progress"].any fun status =>
    backup.status == some status

def activeOperations (agentId deviceId : String) (excludeCommandId : Option String) : Nat :=
  let jobs := db.backups.filter fun backup => backup.sourceId == deviceId && backup.running
  let commands := db.commands.filter fun command =>
    command.agentId == agentId &&
      [AgentCommandType.backupFilesystem, .sourceAccessApply, .sourceAccessValidate,
        .sourceAccessModeSetup].contains
        command.type &&
      [AgentCommandState.queued, .leased, .acknowledged, .running].contains command.state
  jobs.length + (commands.filter fun command => some command.id != excludeCommandId).length

structure SourceAccessPlan where
  id : String
  isActive : Bool
  sourcePath : String

def readPlans (deviceId : String) : List SourceAccessPlan :=
  (db.plans.filter fun plan =>
    plan.sourceId == deviceId && plan.sourceType == "device").map fun plan =>
      ⟨plan.id, plan.isActive, plan.includes.headD ""⟩

/-- The plans whose source is within the selected roots and within none of `roots`. -/
def affectedPlans (deviceId : String) (selectedRoots roots : List String) : List SourceAccessPlan :=
  (readPlans db deviceId).filter fun plan =>
    selectedRoots.any (fun root => sourcePathWithin root plan.sourcePath) &&
      !roots.any fun root => sourcePathWithin root plan.sourcePath

def backupRunningOf (affected : List SourceAccessPlan) : Bool :=
  db.backups.any fun backup => (affected.map (·.id)).contains backup.planId && backup.running

def matchesAppliedReport (request : AgentSourceAccessRequest) (report : SourceAccessReport) :
    Bool :=
  request.kind == .apply && report.lastAppliedRequestId == some request.id &&
    report.effectiveVersion == request.expectedVersion + 1 &&
    report.hostPolicyRevision == request.expectedHostPolicyRevision &&
    sameSourceRoots request.roots report.effectiveRoots &&
    sameSourceRoots request.roots report.paths &&
    sourceReportHealthy report

/-! ## Writes -/

/-- `UPDATE agent_source_access_requests SET .. WHERE id = ..` -/
def updateRequest (id : String) (set : AgentSourceAccessRequest → AgentSourceAccessRequest) :
    Tables :=
  { db with requests := Table.update db.requests (·.id == id) set }

def updateCommand (id : String) (set : AgentCommand → AgentCommand) : Tables :=
  { db with commands := Table.update db.commands (·.id == id) set }

/-- The outcome of a request. -/
def settle (id : String) (status : SourceAccessRequestStatus) (resultCode : String)
    (completedAt : Option Nat) : Tables :=
  updateRequest db id fun request =>
    { request with status := status, resultCode := some resultCode, completedAt := completedAt }

def settleCommand (id : String) (state : AgentCommandState) (now : Nat) (lastError : String) :
    Tables :=
  updateCommand db id fun command =>
    { command with state := state, completedAt := some (Agent.column now),
                   lastError := some lastError }

/-- The command of a mode setup that is already in effect. -/
def completeCommand (id : String) (now : Nat) : Tables :=
  updateCommand db id fun command =>
    { command with state := .completed, completedAt := some (Agent.column now) }

/-- The upsert of an Agent's state. -/
def putState (row : AgentSourceAccessState) : Tables :=
  if db.states.any (·.agentId == row.agentId) then
    { db with states := Table.update db.states (·.agentId == row.agentId) fun _ => row }
  else { db with states := db.states ++ [row] }

/-! ## Reports -/

/-- The report is not newer, or it reports an older selection without an error. -/
def dropped (state : Option AgentSourceAccessState) (report : SourceAccessReport)
    (signedTimestamp : Int) : Bool :=
  state.any fun state =>
    signedTimestamp ≤ state.latestReportTimestamp ||
      (report.effectiveVersion < state.report.effectiveVersion && (given report.policyError).isNone)

/-- An unavailable policy is failed health, and no transition of the mode. -/
def keepAuthority (state : Option AgentSourceAccessState) (report : SourceAccessReport) :
    SourceAccessReport :=
  match state with
  | some state =>
      if (given report.policyError).isSome then
        { report with
          authorizationMode := state.report.authorizationMode
          delegatedRoots := state.report.delegatedRoots
          lastModeSetupRequestId := state.report.lastModeSetupRequestId
          effectiveRoots := [] }
      else report
  | none => report

/-- Every root in effect lies inside a selected one. -/
def inside (selectedRoots effectiveRoots : List String) : Bool :=
  effectiveRoots.all fun root => selectedRoots.any fun selected => sourcePathWithin selected root

def modeMoved (state : Option AgentSourceAccessState) (report : SourceAccessReport) : Bool :=
  (state.elim .hostApproved (·.report.mode)) != report.mode ||
    !sameSourceRoots (state.elim [] (·.report.delegated)) report.delegated ||
    state.any (fun state => state.report.lastModeSetupRequestId != report.lastModeSetupRequestId) ||
    state.any (fun state => state.report.policyError == some "source-mode-unconfirmed")

def confirmsMode (setup : AgentSourceAccessRequest) (report : SourceAccessReport)
    (selectedRoots : List String) : Bool :=
  setup.kind == .modeSetup &&
    [SourceAccessRequestStatus.queued, .validating, .pendingHostSetup,
      .applied].contains setup.status &&
    setup.requestedMode == some report.mode && sameSourceRoots setup.roots report.delegated &&
    report.effectiveVersion == setup.expectedVersion && inside selectedRoots report.effectiveRoots

inductive ModeVerdict where
  | unchanged
  | confirmed (setup : AgentSourceAccessRequest)
  | unconfirmed
  deriving DecidableEq

def modeVerdict (agentId : String) (state : Option AgentSourceAccessState)
    (report : SourceAccessReport) (selectedRoots : List String) : ModeVerdict :=
  if modeMoved state report then
    match (given report.lastModeSetupRequestId).bind (requestOf db agentId) with
    | some setup =>
        if confirmsMode setup report selectedRoots then .confirmed setup else .unconfirmed
    | none => .unconfirmed
  else .unchanged

/-- The report of a selection that no request accounts for. -/
def unconfirmedSelection (effectiveVersion : Nat) (report : SourceAccessReport) :
    SourceAccessReport :=
  { report with
    effectiveVersion := effectiveVersion
    effectiveRoots := []
    policyError := some "source-policy-unconfirmed-selection" }

def confirmsSelection (request : AgentSourceAccessRequest) (report : SourceAccessReport) : Bool :=
  matchesAppliedReport request report &&
    [SourceAccessRequestStatus.queued, .validating, .applied].contains request.status

/-- What a report about the mode that is known does to the selection: the tables, the
report that is kept and the selected roots. -/
def writeSelection (agentId : String) (state : AgentSourceAccessState) (report : SourceAccessReport)
    (now : Nat) (allowConfirmedSelection : Bool) : Tables × SourceAccessReport × List String :=
  if report.effectiveVersion < state.report.effectiveVersion then
    (db, { report with effectiveVersion := state.report.effectiveVersion, effectiveRoots := [] },
      state.selectedRoots)
  else if state.report.effectiveVersion < report.effectiveVersion then
    match (given report.lastAppliedRequestId).bind (requestOf db agentId) with
    | some request =>
        if allowConfirmedSelection && confirmsSelection request report then
          (settle db request.id .applied "source-selection-applied" (some now),
            report, request.roots)
        else (db, unconfirmedSelection state.report.effectiveVersion report, state.selectedRoots)
    | none => (db, unconfirmedSelection state.report.effectiveVersion report, state.selectedRoots)
  else if inside state.selectedRoots report.effectiveRoots then (db, report, state.selectedRoots)
  else (db, unconfirmedSelection report.effectiveVersion report, state.selectedRoots)

def unconfirmedMode (state : Option AgentSourceAccessState) (report : SourceAccessReport) :
    SourceAccessReport :=
  { report with
    effectiveVersion := state.elim 0 (·.report.effectiveVersion)
    effectiveRoots := []
    policyError := some "source-mode-unconfirmed" }

/-- The mode setup that a report confirms is in effect. -/
def applySetup (now : Nat) : ModeVerdict → Tables
  | .confirmed setup => settle db setup.id .applied "source-mode-setup-applied" (some now)
  | .unchanged => db
  | .unconfirmed => db

def writeReport (agentId : String) (report : SourceAccessReport) (signedTimestamp : Int) (now : Nat)
    (allowConfirmedSelection : Bool) : Tables :=
  let state := getState db agentId
  if dropped state report signedTimestamp then db
  else
    let report := keepAuthority state report
    let selectedRoots := state.elim report.paths (·.selectedRoots)
    let verdict := modeVerdict db agentId state report selectedRoots
    let db := applySetup db now verdict
    let written : Tables × SourceAccessReport × List String :=
      match verdict, state with
      | .unconfirmed, _ => (db, unconfirmedMode state report, selectedRoots)
      | _, some state => writeSelection db agentId state report now allowConfirmedSelection
      | _, none => (db, report, selectedRoots)
    putState written.1 ⟨agentId, written.2.1, written.2.2, signedTimestamp, now⟩

def recordHeartbeat (agentId : String) (report : SourceAccessReport) (signedTimestamp : Int)
    (now : Nat) : Tables :=
  writeReport db agentId report signedTimestamp now true

end Pluton.SourceControl
