-- SUMMARY: The readers of the source access policy: approvals, selection, report, validation.
import Pluton.Disk
import Pluton.Ends
import Pluton.SourceAccess.Paths

/-!
# Source access policy: what is read

The files of `SourceAccessPolicy` (`agent/src/sourceAccessPolicy.ts`) and the functions
that read them. The host's policy is written by the operator, the selection by the Agent;
the link between the two is an epoch: the version of the host's policy in which the
approval that covers a selected root was given.

What the file system answers besides the content of these files (owners, modes, links,
real paths) is a `World`. A file that is not JSON of its record is kept apart from the
records, which hold the fields that the readers check.
-/
namespace Pluton.SourceAccess

open Disk (Entry)
open Except (refuseIf)

/-! ## Records -/

inductive Mode where
  | hostApproved
  | serverManaged
  deriving DecidableEq

def Mode.text : Mode → String
  | .hostApproved => "host-approved"
  | .serverManaged => "server-managed"

/-- Roots are delegated in the mode that delegates, and only there. -/
def Mode.admits (roots : List String) : Mode → Bool
  | .hostApproved => roots.isEmpty
  | .serverManaged => !roots.isEmpty

/-- The fields that a policy of version 2 has and one of version 1 has not. -/
structure Delegation where
  authorizationMode : Mode
  delegatedRoots : List String
  delegatedRootVersions : List (String × Nat)
  lastModeSetupRequestId : String
  deriving DecidableEq

/-- `HostApproval`; an object of epochs is the list of its entries. -/
structure HostApproval where
  agentId : String
  hostVersion : Nat
  roots : List String
  rootVersions : List (String × Nat)
  delegation : Option Delegation
  deriving DecidableEq

inductive PolicyFile where
  | malformed
  | body (host : HostApproval)

structure Selection where
  agentId : String
  effectiveVersion : Nat
  requestId : String
  hostPolicyRevision : String
  roots : List String
  hostRootVersions : List (String × Nat)
  deriving DecidableEq

/-- The content of the marker of a running `apply`. -/
structure Transaction where
  agentId : String
  requestId : String
  expectedVersion : Nat
  hostPolicyRevision : String
  roots : List String

/-- The marker file: it is created first and then written. -/
inductive Marker where
  | torn
  | whole (transaction : Transaction)

structure SourceRequest where
  requestId : String
  expectedVersion : Nat
  expectedHostPolicyRevision : String
  roots : List String
  deriving DecidableEq

structure ModeSetupRequest extends SourceRequest where
  authorizationMode : Mode
  expiresAt : Nat
  deriving DecidableEq

/-- A payload as it arrives. -/
inductive Payload where
  | notObject
  | malformed
  | body (request : SourceRequest)

/-- The signed command that a receipt keeps; `envelope` stands for its other signed fields. -/
structure Command where
  type : String
  payload : Option ModeSetupRequest
  envelope : String
  signature : String
  deriving DecidableEq

inductive Receipt where
  | consumed (agentId requestId : String)
  | pending (agentId : String) (command : Command) (bootId : String)
      (preparedUptimeMs monotonicExpiresAt : Nat)

/-! ## Configuration and surroundings -/

/-- The configuration of the Agent. An agent id is what the enrollment gave out, a text
of 30 characters. -/
structure Context where
  agentId : String
  allowedRoots : List String
  dataDir : String
  linux : Bool
  operatorIsRoot : Bool
  /-- The digest of a text, in hexadecimal. -/
  sha256 : String → String
  verifySetupSignature : (secret : String) → Command → Bool
  agentId_short : Js.byteLength (Js.quote agentId) ≤ 1024

/-- What the file system and the clocks answer during one operation. -/
structure World where
  canonicalDirectory : String → Except Code String
  /-- `rootOwned` of the policy file and its directory -/
  rootOwned : Except Code Unit
  stateDirectory : Except Code Unit
  /-- owner, mode and links of the files of the state directory -/
  stateFile : Except Code Unit
  bootClock : Except Code (String × Nat)
  now : Nat
  authorizationStillValid : Bool

/-- The directory of the host's policy. -/
structure HostDir where
  policy : Entry PolicyFile
  lock : Entry Unit

/-- The state directory of the Agent. The anchor holds the agent id. -/
structure DataDir where
  anchor : Entry String
  selection : Entry Selection
  transaction : Entry Marker
  modeSetup : Entry Receipt

variable (ctx : Context) (w : World)

/-! ## Texts -/

/-- `MAX_FILE` -/
def maxFile : Nat := 256 * 1024

def rootsText (roots : List String) : String := Js.stringifyArray (roots.map Js.quote)

def epochsText (epochs : List (String × Nat)) : String :=
  Js.stringify (epochs.map fun entry => (entry.1, toString entry.2))

def Delegation.fields (d : Delegation) : List (String × String) :=
  [("authorizationMode", Js.quote d.authorizationMode.text),
    ("delegatedRoots", rootsText d.delegatedRoots),
    ("delegatedRootVersions", epochsText d.delegatedRootVersions),
    ("lastModeSetupRequestId", Js.quote d.lastModeSetupRequestId)]

def HostApproval.text (h : HostApproval) : String :=
  Js.stringify ([("version", if h.delegation.isSome then "2" else "1"),
    ("agentId", Js.quote h.agentId), ("hostVersion", toString h.hostVersion),
    ("roots", rootsText h.roots),
    ("rootVersions", epochsText h.rootVersions)] ++ (h.delegation.map Delegation.fields).getD [])

def anchorText (agentId : String) : String :=
  Js.stringify [("version", "1"), ("agentId", Js.quote agentId)]

def Selection.text (sel : Selection) : String :=
  Js.stringify [("version", "1"), ("agentId", Js.quote sel.agentId),
    ("effectiveVersion", toString sel.effectiveVersion), ("requestId", Js.quote sel.requestId),
    ("hostPolicyRevision", Js.quote sel.hostPolicyRevision), ("roots", rootsText sel.roots),
    ("hostRootVersions", epochsText sel.hostRootVersions)]

def Transaction.text (t : Transaction) : String :=
  Js.stringify [("version", "1"), ("agentId", Js.quote t.agentId),
    ("requestId", Js.quote t.requestId), ("expectedVersion", toString t.expectedVersion),
    ("hostPolicyRevision", Js.quote t.hostPolicyRevision), ("roots", rootsText t.roots)]

/-- The file of a text is not larger than a reader accepts. -/
def fits (text : String) : Bool := Js.byteLength (text ++ "\n") ≤ maxFile

/-- `/^[a-zA-Z0-9_-]{8,128}$/` -/
def isRequestId (text : String) : Bool :=
  8 ≤ text.toList.length && text.toList.length ≤ 128 &&
    text.toList.all fun ch => ch.isAlphanum || ch == '_' || ch == '-'

/-- `/^[a-f0-9]{64}$/` -/
def isRevision (text : String) : Bool :=
  text.toList.length == 64 && text.toList.all fun ch => ch.isDigit || ('a' ≤ ch && ch ≤ 'f')

def positive (n : Nat) : Bool := 0 < n && n ≤ Js.maxSafeInteger

/-! ## Requests -/

def request : Payload → Except Code SourceRequest
  | .notObject => .error .policyStateInvalid
  | .malformed => .error .requestInvalid
  | .body r =>
    if isRequestId r.requestId && r.expectedVersion ≤ Js.maxSafeInteger &&
        isRevision r.expectedHostPolicyRevision then
      (validateSourcePaths r.roots true).map fun _ => r
    else .error .requestInvalid

def modeRequest (now : Nat) : Option ModeSetupRequest → Except Code ModeSetupRequest
  | none => .error .requestInvalid
  | some r => do
    let _ ← request (.body r.toSourceRequest)
    refuseIf (!(r.expiresAt ≤ Js.maxSafeInteger && now < r.expiresAt &&
      r.expiresAt ≤ now + 15 * 60000 &&
      r.authorizationMode.admits r.roots)) .modeSetupInvalid
    assertNonoverlappingRoots r.roots
    return r

/-! ## The host's policy -/

def newRootAllowed (candidate : String) : Bool :=
  isNewSourceRootAllowed candidate && !sourcePathWithin ctx.dataDir candidate &&
    !sourcePathWithin candidate ctx.dataDir

/-- Each root has its epoch, none after the version of the policy, and no other path has one. -/
def epochsMatch (hostVersion : Nat) (roots : List String) (epochs : List (String × Nat)) : Bool :=
  epochs.length == roots.length &&
    roots.all fun root => (epochs.lookup root).any fun epoch =>
      positive epoch && epoch ≤ hostVersion

def checkDelegation (hostVersion : Nat) (d : Delegation) : Except Code Unit := do
  refuseIf (!isRequestId d.lastModeSetupRequestId) .hostPolicyInvalid
  let _ ← validateSourcePaths d.delegatedRoots true
  assertNonoverlappingRoots d.delegatedRoots
  refuseIf (!d.authorizationMode.admits d.delegatedRoots) .hostPolicyInvalid
  refuseIf (d.delegatedRoots.any fun root => !newRootAllowed ctx root ||
    sourcePathContainsPrivateDirectory root)
    .hostPolicyInvalid
  refuseIf (!epochsMatch hostVersion d.delegatedRoots d.delegatedRootVersions) .hostPolicyInvalid

def checkHost (h : HostApproval) : Except Code Unit := do
  refuseIf (h.agentId != ctx.agentId || !positive h.hostVersion) .hostPolicyInvalid
  let _ ← validateSourcePaths h.roots true
  assertNonoverlappingRoots h.roots
  refuseIf (!h.roots.all (newRootAllowed ctx)) .hostPolicyInvalid
  refuseIf (!epochsMatch h.hostVersion h.roots h.rootVersions) .hostPolicyInvalid
  match h.delegation with
  | none => return ()
  | some d => checkDelegation ctx h.hostVersion d

/-- The policy of a host that never wrote one. -/
def noApproval : HostApproval :=
  { agentId := ctx.agentId, hostVersion := 0, roots := [], rootVersions := [], delegation := none }

def readHost : Option PolicyFile → Except Code HostApproval
  | none => .ok (noApproval ctx)
  | some .malformed => do
    w.rootOwned
    .error .hostPolicyInvalid
  | some (.body h) => do
    w.rootOwned
    refuseIf (!fits h.text) .policyStateInvalid
    checkHost ctx h
    return h

def HostApproval.authorizationMode (h : HostApproval) : Mode :=
  match h.delegation with
  | none => .hostApproved
  | some d => d.authorizationMode

/-- The roots that are delegated to the server, in the mode that delegates. -/
def HostApproval.delegated (h : HostApproval) : List String :=
  match h.delegation with
  | none => []
  | some d => if d.authorizationMode = .serverManaged then d.delegatedRoots else []

structure HostPolicy where
  revision : String
  roots : List String
  host : HostApproval
  staticRoots : List String
  deriving DecidableEq

def staticRoots : List String := Js.sortedSet ctx.allowedRoots

def approvedRoots (h : HostApproval) : List String := Js.sortedSet (ctx.allowedRoots ++ h.roots)

def allRoots (h : HostApproval) : List String := Js.sortedSet (approvedRoots ctx h ++ h.delegated)

def revisionText (h : HostApproval) : String :=
  Js.stringifyArray ([Js.quote ctx.agentId, toString h.hostVersion, rootsText (allRoots ctx h),
    epochsText h.rootVersions] ++ (h.delegation.map fun d => d.fields.map (·.2)).getD [])

def requireLinux : Except Code Unit :=
  if ctx.linux then .ok () else .error .policyLinuxRequired

def checkStaticRoots : Except Code Unit :=
  ctx.allowedRoots.forM fun entry => (validateSourcePaths [entry] false).map fun _ => ()

/-- `hostPolicy()`; only a writer reads past the lock. -/
def hostPolicy (writer : Bool) (dir : HostDir) : Except Code HostPolicy := do
  requireLinux ctx
  refuseIf (!writer && dir.lock.now.isSome) .hostPolicyBusy
  checkStaticRoots ctx
  let h ← readHost ctx w dir.policy.now
  refuseIf ((allRoots ctx h).length > maxRoots) .rootLimit
  return { revision := ctx.sha256 (revisionText ctx h), roots := allRoots ctx h, host := h,
           staticRoots := staticRoots ctx }

/-! ## The selection -/

def readAnchor : Option String → Except Code (Option String)
  | none => .ok none
  | some agentId => do
    w.stateFile
    refuseIf (!fits (anchorText agentId)) .policyStateInvalid
    return some agentId

def readSelection : Option Selection → Except Code (Option Selection)
  | none => .ok none
  | some sel => do
    w.stateFile
    refuseIf (!fits sel.text) .policyStateInvalid
    return some sel

def readTransaction : Option Marker → Except Code (Option Transaction)
  | none => .ok none
  | some .torn => do
    w.stateFile
    .error .policyUnavailable
  | some (.whole t) => do
    w.stateFile
    refuseIf (!fits t.text) .policyStateInvalid
    return some t

def checkSelection (sel : Selection) : Except Code Unit := do
  refuseIf (sel.agentId != ctx.agentId || !positive sel.effectiveVersion) .policyStateInvalid
  refuseIf (!isRequestId sel.requestId || !isRevision sel.hostPolicyRevision) .policyStateInvalid
  let _ ← validateSourcePaths sel.roots true
  assertNonoverlappingRoots sel.roots
  refuseIf (!sel.roots.all fun root => isNewSourceRootAllowed root ||
    ctx.allowedRoots.contains root)
    .policyStateInvalid
  refuseIf (!(sel.hostRootVersions.length == sel.roots.length &&
    sel.roots.all fun root =>
      (sel.hostRootVersions.lookup root).any (· ≤ Js.maxSafeInteger))) .policyStateInvalid

/-- The selection is only believed where the anchor is. -/
def anchoredSelection : Option String → Option Selection → Except Code (Option Selection)
  | none, none => .ok none
  | none, some _ => .error .policyStateInvalid
  | some _, none => .error .policyStateInvalid
  | some agentId, some sel => do
    refuseIf (agentId != ctx.agentId) .policyStateInvalid
    checkSelection ctx sel
    return some sel

/-- `selection(staticRoots)` -/
def selection (dir : DataDir) : Except Code (Option Selection) := do
  w.stateDirectory
  let anchor ← readAnchor w dir.anchor.now
  let state ← readSelection w dir.selection.now
  anchoredSelection ctx anchor state

/-- The approval that covers a root, as the version of the policy that gave it. -/
def rootEpoch (policy : HostPolicy) (root : String) : Option Nat :=
  if policy.staticRoots.any (sourcePathWithin · root) then some 0
  else
    match policy.host.roots.find? (sourcePathWithin · root) with
    | some parent => policy.host.rootVersions.lookup parent
    | none =>
      match policy.host.delegated.find? (sourcePathWithin · root) with
      | some parent => (policy.host.delegation.map (·.delegatedRootVersions)).bind (·.lookup parent)
      | none => none

/-! ## Reports -/

inductive RootStatus where
  | readable
  | missing
  | unreadable
  | rejected

structure SourceAccessReport where
  authorizationMode : Mode
  delegatedRoots : List String
  lastModeSetupRequestId : Option String
  hostPolicyRevision : String
  effectiveVersion : Nat
  lastAppliedRequestId : Option String
  approvedRoots : List String
  effectiveRoots : List String
  rootStatuses : List (String × RootStatus × Option Code)
  policyError : Option Code

def statusOf : Code → RootStatus
  | .missing => .missing
  | .rootNotReadable => .unreadable
  | _ => .rejected

/-- `(await this.canonicalDirectory(root)) !== root` -/
def canonicalCheck (code : Code) (root : String) : Except Code Unit := do
  let canonical ← w.canonicalDirectory root
  refuseIf (canonical != root) code

/-- One turn of the loop of `report`: why a root is not effective. -/
def rootCheck (policy : HostPolicy) (selected : Option Selection) (root : String) :
    Except (RootStatus × Code) Unit :=
  if policy.host.authorizationMode == .serverManaged && sourcePathContainsPrivateDirectory root then
    .error (.rejected, .sensitiveRoot)
  else if !policy.roots.any (sourcePathWithin · root) then .error (.rejected, .hostApprovalRevoked)
  else if selected.any fun sel => sel.hostRootVersions.lookup root != rootEpoch policy root then
    .error (.rejected, .hostApprovalChanged)
  else (canonicalCheck w .symlinkChanged root).mapError fun code => (statusOf code, code)

def isEffective (policy : HostPolicy) (selected : Option Selection) (root : String) : Bool :=
  (rootCheck w policy selected root).toOption.isSome

/-- What is looked at: the selection, or the configuration before there is one. -/
def selectedRoots (policy : HostPolicy) (selected : Option Selection) : List String :=
  (selected.map Selection.roots).getD policy.staticRoots

/-- The roots a report grants for a selection, or for none. -/
def effectiveRoots (policy : HostPolicy) (selected : Option Selection) : List String :=
  (selectedRoots policy selected).filter (isEffective w policy selected)

def rootStatus (policy : HostPolicy) (selected : Option Selection) (root : String) :
    String × RootStatus × Option Code :=
  match rootCheck w policy selected root with
  | .ok _ => (root, .readable, none)
  | .error (status, code) => (root, status, some code)

def unavailableReport : SourceAccessReport :=
  { authorizationMode := .hostApproved, delegatedRoots := [], lastModeSetupRequestId := none,
    hostPolicyRevision := ctx.sha256 (Js.stringifyArray [Js.quote ctx.agentId,
      Js.quote "unavailable"]),
    effectiveVersion := 0, lastAppliedRequestId := none, approvedRoots := [], effectiveRoots := [],
    rootStatuses := [], policyError := none }

/-- No storage failure is latched and no `apply` is open. -/
def checkDurability (latched : Bool) (dir : DataDir) : Except Code Unit := do
  refuseIf latched .policyDurabilityUncertain
  let marker ← readTransaction w dir.transaction.now
  refuseIf marker.isSome .policyDurabilityUncertain

def hostReport (policy : HostPolicy) : SourceAccessReport :=
  { unavailableReport ctx with
    hostPolicyRevision := policy.revision
    authorizationMode := policy.host.authorizationMode
    delegatedRoots := policy.host.delegated
    lastModeSetupRequestId := policy.host.delegation.map Delegation.lastModeSetupRequestId
    approvedRoots := approvedRoots ctx policy.host }

def selectionReport (policy : HostPolicy) (selected : Option Selection) : SourceAccessReport :=
  { hostReport ctx policy with
    effectiveVersion := (selected.map Selection.effectiveVersion).getD 0
    lastAppliedRequestId := selected.map Selection.requestId }

/-- `report()`. What was read before an error stays in the report, the roots do not. -/
def report (latched : Bool) (host : HostDir) (data : DataDir) : SourceAccessReport :=
  match hostPolicy ctx w false host with
  | .error code => { unavailableReport ctx with policyError := some code }
  | .ok policy =>
    match selection ctx w data with
    | .error code => { hostReport ctx policy with policyError := some code }
    | .ok selected =>
      match checkDurability w latched data with
      | .error code => { selectionReport ctx policy selected with policyError := some code }
      | .ok _ =>
        { selectionReport ctx policy selected with
          effectiveRoots := effectiveRoots w policy selected
          rootStatuses := (selectedRoots policy selected).map (rootStatus w policy selected) }

/-! ## Validation -/

inductive ValidationStatus where
  | approved
  | rejected
  | pendingHostApproval
  deriving DecidableEq

structure Validation where
  requestedPath : String
  canonicalPath : Option String
  status : ValidationStatus
  code : Option Code
  deriving DecidableEq

def SourceAccessReport.refuses (r : SourceAccessReport) (candidate : String) : Bool :=
  (r.authorizationMode == .serverManaged && sourcePathContainsPrivateDirectory candidate) ||
    (!newRootAllowed ctx candidate && !r.approvedRoots.contains candidate)

def SourceAccessReport.maximum (r : SourceAccessReport) : List String :=
  r.approvedRoots ++ (if r.authorizationMode = .serverManaged then r.delegatedRoots else [])

def validateRoot (r : SourceAccessReport) (candidate : String) : Except Code Validation := do
  refuseIf (r.refuses ctx candidate) .sensitiveRoot
  let canonical ← w.canonicalDirectory candidate
  refuseIf (r.refuses ctx canonical) .sensitiveRoot
  return (
    if r.maximum.any (sourcePathWithin · canonical) then
      ⟨candidate, some canonical, .approved, none⟩
    else if r.authorizationMode = .serverManaged then
      ⟨candidate, some canonical, .rejected, some .outsideDelegatedScope⟩
    else ⟨candidate, some canonical, .pendingHostApproval, none⟩)

def validationOf (r : SourceAccessReport) (candidate : String) : Validation :=
  match validateRoot ctx w r candidate with
  | .ok validation => validation
  | .error code => ⟨candidate, none, .rejected, some code⟩

/-- The report is the one that the server saw. -/
def SourceAccessReport.expected (r : SourceAccessReport) (input : SourceRequest) :
    Except Code Unit :=
  match r.policyError with
  | some code => .error code
  | none =>
    if input.expectedVersion == r.effectiveVersion &&
        input.expectedHostPolicyRevision == r.hostPolicyRevision then .ok ()
    else .error .policyStale

def validate (r : SourceAccessReport) (input : SourceRequest) : Except Code (List Validation) := do
  r.expected input
  return input.roots.map (validationOf ctx w r)

end Pluton.SourceAccess
