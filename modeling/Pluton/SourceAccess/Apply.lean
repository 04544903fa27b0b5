-- SUMMARY: The writers of the source access files as a machine, with recovery and crashes.
import Pluton.SourceAccess.Policy

/-!
# Source access policy: what is written

`apply` runs in steps, one for each file operation of `agent/src/sourceAccessPolicy.ts`,
so that the host can change its policy and the machine can stop between any two of them.
The operations of the host hold the lock of the policy directory while they run and are
one step each; how far a failed one came is part of its event. The Agent runs one `apply`
at a time.
-/
namespace Pluton.SourceAccess

open Disk (Entry Written)
open Except (refuseIf)

/-! ## States -/

/-- A request that passed every check, with the epochs its roots are bound to. -/
structure Pending where
  input : SourceRequest
  hostRootVersions : List (String × Nat)
  deriving DecidableEq

/-- How far an `apply` came. -/
inductive Phase where
  | checked
  | created
  | written
  | fenced
  | anchored
  | stored
  | unlinked (fence : Transaction)

structure Apply where
  pending : Pending
  phase : Phase

structure State where
  host : HostDir
  data : DataDir
  /-- A storage failure that the running Agent process remembers. -/
  latched : Bool
  applying : Option Apply

def HostDir.sync (dir : HostDir) : HostDir := ⟨dir.policy.sync, dir.lock.sync⟩

def DataDir.sync (dir : DataDir) : DataDir :=
  ⟨dir.anchor.sync, dir.selection.sync, dir.transaction.sync, dir.modeSetup.sync⟩

/-- An Agent that never applied a selection. -/
def start (policy : Option PolicyFile) : State where
  host := ⟨.settled policy, .settled none⟩
  data := ⟨.settled none, .settled none, .settled none, .settled none⟩
  latched := false
  applying := none

variable (ctx : Context) (w : World)

def State.report (s : State) : SourceAccessReport :=
  SourceAccess.report ctx w s.latched s.host s.data

/-! ## Checks of `apply` -/

def Pending.selection (p : Pending) : Selection :=
  { agentId := ctx.agentId, effectiveVersion := p.input.expectedVersion + 1,
    requestId := p.input.requestId,
    hostPolicyRevision := p.input.expectedHostPolicyRevision, roots := p.input.roots,
    hostRootVersions := p.hostRootVersions }

def Pending.transaction (p : Pending) : Transaction :=
  { agentId := ctx.agentId, requestId := p.input.requestId,
    expectedVersion := p.input.expectedVersion,
    hostPolicyRevision := p.input.expectedHostPolicyRevision, roots := p.input.roots }

inductive Verdict where
  | refused (code : Code) (validation : List Validation)
  | replayed
  | ready (pending : Pending)
  deriving DecidableEq

/-- The request is the one that the selection on disk came from. -/
def isReplay (s : State) (input : SourceRequest) : Bool :=
  let current := s.report ctx w
  current.policyError.isNone && current.lastAppliedRequestId == some input.requestId &&
    current.effectiveVersion == input.expectedVersion + 1 &&
    match hostPolicy ctx w false s.host, selection ctx w s.data with
    | .ok _, .ok (some previous) =>
      previous.hostPolicyRevision == input.expectedHostPolicyRevision &&
      previous.roots == input.roots
    | _, _ => false

def allApproved (validation : List Validation) : Except Code Unit :=
  if validation.all (·.status == .approved) then .ok ()
  else if validation.any (·.status == .pendingHostApproval) then .error .hostApprovalRequired
  else .error .pathRejected

def bindEpoch (policy : HostPolicy) (root : String) : Except Code (String × Nat) :=
  match rootEpoch policy root with
  | some epoch => .ok (root, epoch)
  | none => .error .hostApprovalRequired

/-- From the validation to the marker. -/
def bindRequest (s : State) (input : SourceRequest) (validation : List Validation) :
    Except Code Pending := do
  allApproved validation
  refuseIf (validation.map (·.canonicalPath) != input.roots.map some) .canonicalPathRequired
  assertNonoverlappingRoots input.roots
  refuseIf (input.expectedVersion ≥ Js.maxSafeInteger - 1) .policyVersionExhausted
  ((s.report ctx w).expected input).mapError fun _ => .policyStale
  refuseIf (!w.authorizationStillValid) .commandLeaseExpired
  w.stateDirectory
  let policy ← hostPolicy ctx w false s.host
  refuseIf (policy.revision != input.expectedHostPolicyRevision) .policyStale
  let epochs ← input.roots.mapM (bindEpoch policy)
  return ⟨input, epochs⟩

def checkApply (s : State) (payload : Payload) : Verdict :=
  match request payload with
  | .error code => .refused code []
  | .ok input =>
    if !w.authorizationStillValid then .refused .commandLeaseExpired []
    else if isReplay ctx w s input then .replayed
    else
      match validate ctx w (s.report ctx w) input with
      | .error code => .refused code []
      | .ok validation =>
        match bindRequest ctx w s input validation with
        | .error code => .refused code validation
        | .ok pending => .ready pending

/-! ## File steps of `apply` -/

/-- What one file step meets: whether the plain operation succeeds, whether the command is
still leased, and how the replacement of a file, or that of the marker, ends. -/
structure Io where
  ok : Bool
  lease : Bool
  written : Written
  fence : Written

/-- The `catch` of `apply`: only an uncertain write is remembered. -/
def State.stop (s : State) (code : Code) : State :=
  { s with applying := none, latched := s.latched || code == .policyDurabilityUncertain }

def State.proceed (s : State) (p : Pending) (phase : Phase) (data : DataDir) : State :=
  { s with applying := some ⟨p, phase⟩, data := data }

/-- `durableWrite` into the state directory: the phase goes on only if it is on disk. -/
def State.write (s : State) (p : Pending) (phase : Phase) (io : Io) (data : DataDir) : State :=
  match io.written with
  | .durable => s.proceed p phase data.sync
  | _ => { s with data := data }.stop .policyDurabilityUncertain

/-- The catch of `finishTransaction`: the marker is put back before the failure is told. -/
def DataDir.refence (dir : DataDir) (fence : Transaction) (written : Written) : DataDir :=
  match written with
  | .durable => { dir with transaction := .settled (some (.whole fence)) }.sync
  | other => { dir with transaction := dir.transaction.replace (.whole fence) other }

/-- The next file operation of the running `apply`. -/
def State.advance (s : State) (io : Io) : State :=
  match s.applying with
  | none => s
  | some ⟨p, .checked⟩ =>
    -- the marker is created exclusively: it is also the lock of the writer
    if s.data.transaction.now.isSome || !io.ok then s.stop .policyUnavailable
    else s.proceed p .created { s.data with transaction := s.data.transaction.set (some .torn) }
  | some ⟨p, .created⟩ =>
    if !io.ok then s.stop .policyUnavailable
    else s.proceed p .written { s.data with
      transaction := s.data.transaction.refill (.whole (p.transaction ctx)) }
  | some ⟨p, .written⟩ =>
    if !io.ok then s.stop .policyDurabilityUncertain else s.proceed p .fenced s.data.sync
  | some ⟨p, .fenced⟩ =>
    -- the anchor comes before the selection, so that a lost selection is never taken for none
    if !io.ok then s.stop .policyStateInvalid
    else if s.data.anchor.now.isSome then s.proceed p .anchored s.data
    else s.write p .anchored io { s.data with
      anchor := s.data.anchor.replace ctx.agentId io.written }
  | some ⟨p, .anchored⟩ =>
    if !io.lease then s.stop .commandLeaseExpired
    else s.write p .stored io { s.data with
      selection := s.data.selection.replace (p.selection ctx) io.written }
  | some ⟨p, .stored⟩ =>
    if !io.lease then s.stop .commandLeaseExpired
    else
      match s.data.transaction.now with
      | some (.whole fence) =>
        if !io.ok then s.stop .policyUnavailable
        else s.proceed p (.unlinked fence) { s.data with
          transaction := s.data.transaction.set none }
      | _ => s.stop .policyUnavailable
  | some ⟨_, .unlinked fence⟩ =>
    if io.ok then { s with applying := none, data := s.data.sync }
    else { s with data := s.data.refence fence io.fence }.stop .policyDurabilityUncertain

/-- A call of `apply` up to its first file operation. A refusal for an uncertain write is
remembered like the failure itself. -/
def State.check (s : State) (payload : Payload) : State :=
  if s.applying.isSome then s
  else
    match checkApply ctx w s payload with
    | .refused code _ => s.stop code
    | .replayed => s
    | .ready p => { s with applying := some ⟨p, .checked⟩ }

/-! ## Operations of the host -/

/-- What an operation of the host wants to write. -/
structure Change where
  host : HostApproval
  receipt : Option Receipt

/-- What the file operations of the host meet: the lock, the receipt, the policy, the
release of the lock, and the lock that is put back when the release is uncertain. -/
structure HostIo where
  lock : Bool
  receipt : Written
  policy : Written
  release : Bool
  fence : Written

/-- The lock of `withHostWriter` is removed. -/
def State.release (s : State) (io : HostIo) (result : Except Code HostPolicy) :
    Except Code HostPolicy × State :=
  if io.release then (result, { s with host := { s.host with lock := .settled none }.sync })
  else
    (.error .policyDurabilityUncertain,
      match io.fence with
      | .durable => { s with host := { s.host with lock := .settled (some ()) }.sync }
      | other => { s with host := { s.host with lock := (s.host.lock.set none).replace () other } })

/-- `durableWrite` of the receipt. -/
def DataDir.consume (dir : DataDir) (receipt : Receipt) (written : Written) : DataDir :=
  match written with
  | .durable => { dir with modeSetup := .settled (some receipt) }.sync
  | other => { dir with modeSetup := dir.modeSetup.replace receipt other }

def State.consume (s : State) (receipt : Receipt) (written : Written) : State :=
  { s with data := s.data.consume receipt written }

def State.writeReceipt (s : State) (io : HostIo) : Option Receipt → Except Code Unit × State
  | none => (.ok (), s)
  | some receipt =>
    (if io.receipt == .durable then .ok () else .error .policyDurabilityUncertain,
      s.consume receipt io.receipt)

def State.writePolicy (s : State) (io : HostIo) (host : HostApproval) : State :=
  match io.policy with
  | .durable => { s with host := { s.host with policy := .settled (some (.body host)) }.sync }
  | other => { s with host := { s.host with policy := s.host.policy.replace (.body host) other } }

/-- Everything after `hostWriteAttempted`: a failure here leaves the lock. -/
def State.commit (s : State) (io : HostIo) (change : Change) : Except Code HostPolicy × State :=
  match s.writeReceipt io change.receipt with
  | (.error code, s) => (.error code, s)
  | (.ok _, s) =>
    let s := s.writePolicy io change.host
    if io.policy == .durable then (hostPolicy ctx w true s.host, s)
    else (.error .policyDurabilityUncertain, s)

/-- `withHostWriter`; `plan` is what its operation decides before it writes. -/
def State.withHostWriter (s : State) (io : HostIo) (plan : Except Code Change) :
    Except Code HostPolicy × State :=
  match w.rootOwned with
  | .error code => (.error code, s)
  | .ok _ =>
    if s.host.lock.now.isSome then (.error .hostPolicyBusy, s)
    else
      let locked := { s with host := { s.host with lock := s.host.lock.set (some ()) } }
      if !io.lock then (.error .policyDurabilityUncertain, locked)
      else
        let locked := { locked with host := locked.host.sync }
        match plan with
        | .error code => locked.release io (.error code)
        | .ok change =>
          match locked.commit ctx w io change with
          | (.error code, s) => (.error code, s)
          | (.ok policy, s) => s.release io (.ok policy)

inductive Action where
  | approve
  | revoke

structure ApprovalInput where
  action : Action
  agentId : String
  expectedRevision : String
  roots : List String

def checkCandidate (action : Action) (root : String) : Except Code Unit := do
  refuseIf (!newRootAllowed ctx root) .canonicalPathRequired
  match action with
  | .approve => canonicalCheck w .canonicalPathRequired root
  | .revoke => return ()

/-- The approved roots after the action. -/
def nextRoots (policy : HostPolicy) (input : ApprovalInput) : Except Code (List String) :=
  match input.action with
  | .approve => do
    let roots := Js.sortedSet (policy.host.roots ++ input.roots)
    assertNonoverlappingRoots roots
    refuseIf (input.roots.any fun root => policy.staticRoots.any (sourcePathWithin · root))
      .alreadyHostApproved
    return roots
  | .revoke =>
    if input.roots.any fun root => !policy.host.roots.contains root then
      .error .staticRootRequiresLocalConfig
    else .ok (policy.host.roots.filter fun root => !input.roots.contains root)

/-- `policy.host.rootVersions[root] || policy.host.hostVersion + 1` -/
def nextEpoch (h : HostApproval) (root : String) : Nat :=
  match h.rootVersions.lookup root with
  | some epoch => if epoch = 0 then h.hostVersion + 1 else epoch
  | none => h.hostVersion + 1

def requireOperator (agentId : String) : Except Code Unit := do
  requireLinux ctx
  refuseIf (!ctx.operatorIsRoot || agentId != ctx.agentId) .hostOperatorRequired

def planApproval (s : State) (input : ApprovalInput) : Except Code Change := do
  let policy ← hostPolicy ctx w true s.host
  refuseIf (policy.revision != input.expectedRevision) .policyStale
  let _ ← validateSourcePaths input.roots false
  input.roots.forM (checkCandidate ctx w input.action)
  assertNonoverlappingRoots input.roots
  let roots ← nextRoots policy input
  refuseIf (roots.length + policy.staticRoots.length > maxRoots ||
    policy.host.hostVersion ≥ Js.maxSafeInteger)
    .rootLimit
  return { host := { policy.host with
                     agentId := ctx.agentId
                     hostVersion := policy.host.hostVersion + 1
                     roots := roots
                     rootVersions := roots.map fun root => (root, nextEpoch policy.host root) }
           receipt := none }

/-- `changeHostApproval`, with the policy it read back. -/
def State.changeHostApproval (s : State) (input : ApprovalInput) (io : HostIo) :
    Except Code HostPolicy × State :=
  match requireOperator ctx input.agentId with
  | .error code => (.error code, s)
  | .ok _ => s.withHostWriter ctx w io (planApproval ctx w s input)

structure ModeInput where
  agentId : String
  expectedRevision : String
  requestId : String
  authorizationMode : Mode
  roots : List String
  secret : String
  confirmDelegation : Bool
  confirmDrained : Bool

def checkReceiptClock (bootId : String) (prepared expires : Nat) : Except Code Unit := do
  let clock ← w.bootClock
  refuseIf (!(bootId == clock.1 && prepared ≤ Js.maxSafeInteger && expires ≤ Js.maxSafeInteger &&
    prepared ≤ clock.2 && clock.2 < expires)) .modeSetupExpired

/-- The request of the receipt on disk, if it is signed and in time. -/
def openReceipt (input : ModeInput) : Option Receipt → Except Code ModeSetupRequest
  | none => .error .policyStateInvalid
  | some (.consumed _ _) => do
    w.stateFile
    .error .modeSetupInvalid
  | some (.pending agentId command bootId prepared expires) => do
    w.stateFile
    refuseIf (agentId != input.agentId || command.type != "SOURCE_ACCESS_MODE_SETUP" ||
        !ctx.verifySetupSignature input.secret command) .modeSetupInvalid
    let setup ← modeRequest w.now command.payload
    checkReceiptClock w bootId prepared expires
    return setup

def delegatedCheck (root : String) : Except Code Unit := do
  refuseIf (!newRootAllowed ctx root ||
    sourcePathContainsPrivateDirectory root) .canonicalPathRequired
  canonicalCheck w .canonicalPathRequired root

/-- The setup is the one that the operator confirmed and that was prepared for this policy. -/
def setupMatches (input : ModeInput) (policy : HostPolicy) (selected : Option Selection)
    (setup : ModeSetupRequest) : Except Code Unit := do
  refuseIf (setup.requestId != input.requestId ||
    setup.authorizationMode != input.authorizationMode ||
    setup.expectedHostPolicyRevision != policy.revision ||
    setup.expectedVersion != (selected.map Selection.effectiveVersion).getD 0) .modeSetupInvalid
  let roots ← validateSourcePaths input.roots true
  refuseIf (setup.roots != roots) .modeSetupInvalid

def planMode (s : State) (input : ModeInput) : Except Code Change := do
  let policy ← hostPolicy ctx w true s.host
  let selected ← selection ctx w s.data
  refuseIf (policy.revision != input.expectedRevision) .policyStale
  let marker ← readTransaction w s.data.transaction.now
  refuseIf marker.isSome .policyStale
  let setup ← openReceipt ctx w input s.data.modeSetup.now
  setupMatches input policy selected setup
  setup.roots.forM (delegatedCheck ctx w)
  refuseIf ((policy.staticRoots ++ policy.host.roots ++ setup.roots).dedup.length > maxRoots ||
      policy.host.hostVersion ≥ Js.maxSafeInteger) .rootLimit
  return { host := { policy.host with
                     hostVersion := policy.host.hostVersion + 1
                     delegation := some
                       { authorizationMode := setup.authorizationMode
                         delegatedRoots := setup.roots
                         delegatedRootVersions :=
                           setup.roots.map fun root => (root, policy.host.hostVersion + 1)
                         lastModeSetupRequestId := setup.requestId } }
           receipt := some (.consumed input.agentId setup.requestId) }

/-- `changeAuthorizationMode`, with the policy it read back. -/
def State.changeAuthorizationMode (s : State) (input : ModeInput) (io : HostIo) :
    Except Code HostPolicy × State :=
  match requireOperator ctx input.agentId with
  | .error code => (.error code, s)
  | .ok _ =>
    if !input.confirmDrained ||
    (input.authorizationMode == .serverManaged && !input.confirmDelegation) then
      (.error .modeConfirmationRequired, s)
    else s.withHostWriter ctx w io (planMode ctx w s input)

/-! ## Recovery -/

structure RecoverInput where
  agentId : String
  expectedRevision : String
  requestId : String

/-- The selection is the one that the marker announced, and what it is bound to still stands. -/
def recoverable (policy : HostPolicy) (input : RecoverInput) (marker : Transaction)
    (sel : Selection) : Bool :=
  marker.agentId == ctx.agentId && marker.requestId == input.requestId &&
    sel.requestId == input.requestId &&
    sel.effectiveVersion == marker.expectedVersion + 1 &&
    sel.hostPolicyRevision == policy.revision &&
    sel.roots == marker.roots &&
    sel.roots.all fun root =>
      sel.hostRootVersions.lookup root == rootEpoch policy root &&
      policy.roots.any (sourcePathWithin · root)

def requireMarker : Option Transaction → Except Code Transaction
  | some marker => .ok marker
  | none => .error .policyStateInvalid

def requireRecoverable (policy : HostPolicy) (input : RecoverInput) (marker : Transaction) :
    Option Selection → Except Code Selection
  | some sel =>
    if recoverable ctx policy input marker sel then .ok sel else .error .recoveryReviewRequired
  | none => .error .recoveryReviewRequired

def checkRecover (s : State) (input : RecoverInput) : Except Code Transaction := do
  requireOperator ctx input.agentId
  let policy ← hostPolicy ctx w false s.host
  refuseIf (policy.revision != input.expectedRevision) .policyStale
  let found ← readTransaction w s.data.transaction.now
  let marker ← requireMarker found
  let selected ← selection ctx w s.data
  let sel ← requireRecoverable ctx policy input marker selected
  sel.roots.forM (canonicalCheck w .symlinkChanged)
  return marker

/-- What the file operations of a recovery meet: the syncs before the marker is unlinked,
the unlink, and the sync after it. -/
structure RecoverIo where
  synced : Bool
  unlinked : Bool
  finished : Bool
  fence : Written

/-- `recoverSelection`; `own` if it runs in the process of the Agent, whose latch it then
clears or sets. -/
def State.recoverSelection (s : State) (own : Bool) (input : RecoverInput) (io : RecoverIo) :
    State :=
  match checkRecover ctx w s input with
  | .error _ => s
  | .ok marker =>
    if !io.synced then s
    else if !io.unlinked then { s with data := s.data.sync }
    else
      let data := { s.data.sync with transaction := s.data.sync.transaction.set none }
      if io.finished then { s with data := data.sync, latched := s.latched && !own }
      else { s with data := data.refence marker io.fence, latched := s.latched || own }

/-! ## Runs -/

/-- For each entry, how many of its unsynced changes a crash undoes. -/
structure Picks where
  policy : Nat
  lock : Nat
  anchor : Nat
  selection : Nat
  transaction : Nat
  modeSetup : Nat

/-- The process ends; what it wrote is there for the next one. -/
def State.restart (s : State) : State := { s with latched := false, applying := none }

/-- The machine stops: a new process starts from what the disk has. -/
def State.crash (s : State) (picks : Picks) : State where
  host := ⟨s.host.policy.crash picks.policy, s.host.lock.crash picks.lock⟩
  data := ⟨s.data.anchor.crash picks.anchor, s.data.selection.crash picks.selection,
    s.data.transaction.crash picks.transaction, s.data.modeSetup.crash picks.modeSetup⟩
  latched := false
  applying := none

inductive Event where
  | check (w : World) (payload : Payload)
  | advance (io : Io)
  | report (w : World)
  | approval (w : World) (input : ApprovalInput) (io : HostIo)
  | mode (w : World) (input : ModeInput) (io : HostIo)
  /-- A receipt that `prepareModeSetup` stored. -/
  | receipt (receipt : Receipt) (written : Written)
  | recover (w : World) (own : Bool) (input : RecoverInput) (io : RecoverIo)
  | restart
  | crash (picks : Picks)

def step (s : State) : Event → State
  | .check w payload => s.check ctx w payload
  | .advance io => s.advance ctx io
  | .report _ => s
  | .approval w input io => (s.changeHostApproval ctx w input io).2
  | .mode w input io => (s.changeAuthorizationMode ctx w input io).2
  | .receipt receipt written => s.consume receipt written
  | .recover w own input io => s.recoverSelection ctx w own input io
  | .restart => s.restart
  | .crash picks => s.crash picks

def run (s : State) (events : List Event) : State := events.foldl (step ctx) s

/-! ## A small installation

One configured root, one root that the operator approves and one that is delegated. The
digests and the signature are those of the real texts. -/

def revision0 : String := "5c8fb1bb1c63179bc91040ba1023a349a5764380f95b605b2cb7dd467ebbb6a8"

def revision1 : String := "afe83cfe1fc246da22b5315348bec388147ddaf727366974a3a61de03322e8fa"

def revision2 : String := "9be6814514f167dec471df39cbae0f7184a6789dfcc27d503f07ac6789598c8c"

def sampleCommand : Command where
  type := "SOURCE_ACCESS_MODE_SETUP"
  payload := some
    { requestId := "request-3", expectedVersion := 1, expectedHostPolicyRevision := revision1,
      roots := ["/data/b"], authorizationMode := .serverManaged, expiresAt := 600000 }
  envelope := "1\ncommand-1\nkey-1\nlease-1\n600000"
  signature := "5iX8WMG1uVz0agHo33yscpNh6TxIiDXuAGB2ff7QW9M="

def sampleContext : Context where
  agentId := "agent-1"
  allowedRoots := ["/srv/app"]
  dataDir := "/var/lib/pluton-agent"
  linux := true
  operatorIsRoot := true
  sha256 := fun text =>
    ([("[\"agent-1\",0,[\"/srv/app\"],\x7b\x7d]", revision0),
      ("[\"agent-1\",1,[\"/data/a\",\"/srv/app\"],\x7b\"/data/a\":1\x7d]", revision1),
      ("[\"agent-1\",2,[\"/data/a\",\"/data/b\",\"/srv/app\"],\x7b\"/data/a\":1\x7d," ++
        "\"server-managed\",[\"/data/b\"],\x7b\"/data/b\":2\x7d,\"request-3\"]",
        revision2)].lookup text).getD ""
  verifySetupSignature := fun secret command => secret == "secret-1" && command == sampleCommand
  agentId_short := by decide +kernel

def sampleWorld : World where
  canonicalDirectory := fun root => .ok root
  rootOwned := .ok ()
  stateDirectory := .ok ()
  stateFile := .ok ()
  bootClock := .ok ("boot", 10)
  now := 0
  authorizationStillValid := true

def sampleRequest : SourceRequest where
  requestId := "request-1"
  expectedVersion := 0
  expectedHostPolicyRevision := revision0
  roots := ["/srv/app"]

def sampleApproval : ApprovalInput where
  action := .approve
  agentId := "agent-1"
  expectedRevision := revision0
  roots := ["/data/a"]

def sampleSelection : Selection where
  agentId := "agent-1"
  effectiveVersion := 1
  requestId := "request-1"
  hostPolicyRevision := revision0
  roots := ["/srv/app"]
  hostRootVersions := [("/srv/app", 0)]

/-- The policy before and after the approval. -/
def samplePolicy0 : HostPolicy :=
  ⟨revision0, ["/srv/app"], ⟨"agent-1", 0, [], [], none⟩, ["/srv/app"]⟩

def samplePolicy1 : HostPolicy :=
  ⟨revision1, ["/data/a", "/srv/app"],
    ⟨"agent-1", 1, ["/data/a"], [("/data/a", 1)], none⟩, ["/srv/app"]⟩

/-- Every file operation succeeds. -/
def hostDone : HostIo := ⟨true, .durable, .durable, true, .durable⟩

def stepDone : Io := ⟨true, true, .durable, .durable⟩

end Pluton.SourceAccess
