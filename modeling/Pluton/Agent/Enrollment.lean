-- SUMMARY: Enrollment tokens, agent identities and devices: how they are created and revoked.
import Pluton.Agent.Replay
import Pluton.Agent.Store
import Pluton.Ends
import Pluton.UniqueTable

/-!
# Enrollment and revocation of agents

The enrollment half of `AgentService` (`backend/src/services/AgentService.ts`) over
`AgentStore` (`backend/src/stores/AgentStore.ts`). An enrollment claims its one-time token
and creates the device, the identity and the first command in one transaction; the other
operations are single statements, or two of them without a transaction. Left out are the
schemas of the requests, the notes of `audit`, the distribution and the URLs in an answer,
and what a heartbeat reports of source access; the random values that a call draws and the
hash and the encryption it uses are given.
-/
namespace Pluton.Agent.Enrollment

open Await
open Except (refuseIf refuseIf_eq_ok bind_eq_ok pure_eq_ok)

/-! ## Tables -/

/-- `AgentInventory`, with the JSON text of its capabilities. -/
structure AgentInventory where
  hostname : String
  os : String
  architecture : String
  agentVersion : String
  resticVersion : Option String := none
  rcloneVersion : Option String := none
  capabilities : String := "\x7b\x7d"
  deriving DecidableEq

/-- `text || null` -/
def orNull (text : Option String) : Option String := text.filter (· ≠ "")

/-- A row of `agent_enrollment_tokens`. -/
structure AgentEnrollmentToken where
  id : String
  tokenHash : String
  deviceName : String
  expiresAt : Nat
  usedAt : Option Nat := none
  revokedAt : Option Nat := none

/-- The JSON column `versions` of a device. -/
structure DeviceVersions where
  agent : String
  restic : String
  rclone : String

/-- A row of `devices`. -/
structure Device where
  id : String
  name : String
  type : String := "device"
  agentId : Option String := none
  hostname : Option String := none
  os : Option String := none
  platform : Option String := none
  versions : Option DeviceVersions := none
  status : Option String := none
  lastSeen : Option Nat := none

/-- A row of `agent_identities`. -/
structure AgentIdentity where
  agentId : String
  deviceId : String
  encryptedSecret : String
  hostname : String
  os : String
  architecture : String
  agentVersion : String
  resticVersion : Option String
  rcloneVersion : Option String
  capabilities : String
  lastSeen : Option Nat
  revokedAt : Option Nat := none
  deriving DecidableEq

/-- A row of `agent_commands` with the column that only its creation uses. -/
structure NewCommand extends AgentCommand where
  idempotencyKey : String

/-- What `authenticate` reads of an identity. -/
def AgentIdentity.credential (identity : AgentIdentity) : Replay.AgentIdentity :=
  ⟨identity.agentId, identity.deviceId, identity.encryptedSecret, identity.revokedAt⟩

def versionsOf (inventory : AgentInventory) : DeviceVersions :=
  ⟨inventory.agentVersion, inventory.resticVersion.getD "", inventory.rcloneVersion.getD ""⟩

def tokenColumns : List (AgentEnrollmentToken → Option String) := [(some ·.id), (some ·.tokenHash)]

def deviceColumns : List (Device → Option String) := [(some ·.id), Device.agentId]

def identityColumns : List (AgentIdentity → Option String) := [(some ·.agentId), (some ·.deviceId)]

def commandColumns : List (NewCommand → Option String) := [(some ·.id), (some ·.idempotencyKey)]

structure Database where
  tokens : Table.Unique tokenColumns
  devices : Table.Unique deviceColumns
  identities : Table.Unique identityColumns
  commands : Table.Unique commandColumns

/-! ## Statements on tokens -/

/-- Why a statement or a transaction was given up. -/
inductive StoreError where
  | constraint
  | error (message : String)

def insert {ρ : Type} {columns : List (ρ → Option String)} (t : Table.Unique columns) (row : ρ) :
    Except StoreError (Table.Unique columns) :=
  match t.insert? row with
  | some t => .ok t
  | none => .error .constraint

/-- A token that no enrollment has used and no administrator has revoked. -/
def AgentEnrollmentToken.open_ (row : AgentEnrollmentToken) : Bool :=
  row.usedAt.isNone && row.revokedAt.isNone

/-- Condition of `revokeEnrollment`. -/
def revokeCond (id : String) (row : AgentEnrollmentToken) : Bool :=
  row.id == id && row.open_

def revokeSet (now : Nat) (row : AgentEnrollmentToken) : AgentEnrollmentToken :=
  { row with revokedAt := some (column now) }

/-- Condition of the claim in `enrollAgent`: `gt(expiresAt, now)` compares column values. -/
def claimCond (tokenHash : String) (now : Nat) (row : AgentEnrollmentToken) : Bool :=
  row.tokenHash == tokenHash && row.open_ && decide (column now < row.expiresAt)

def claimSet (now : Nat) (row : AgentEnrollmentToken) : AgentEnrollmentToken :=
  { row with usedAt := some (column now) }

/-! ## `enrollAgent` -/

structure NewDevice where
  id : String
  agentId : String
  inventory : AgentInventory

structure NewAgentIdentity where
  agentId : String
  deviceId : String
  encryptedSecret : String
  inventory : AgentInventory

structure FirstCommand where
  id : String
  agentId : String
  type : AgentCommandType
  payload : List (String × Option String)
  idempotencyKey : String

structure EnrollAgentData where
  tokenHash : String
  now : Nat
  device : NewDevice
  identity : NewAgentIdentity
  command : FirstCommand

/-- `AGENT_COMMAND_TYPES` -/
def agentCommandTypes : List AgentCommandType :=
  [.ping, .inventoryRefresh, .backupFilesystem, .sourceAccessValidate, .sourceAccessApply,
    .sourceAccessModeSetup]

def EnrollAgentData.deviceRow (data : EnrollAgentData) (enrollment : AgentEnrollmentToken) :
    Device where
  id := data.device.id
  name := enrollment.deviceName
  type := "remote-agent"
  agentId := some data.device.agentId
  hostname := some data.device.inventory.hostname
  os := some data.device.inventory.os
  platform := some data.device.inventory.architecture
  versions := some (versionsOf data.device.inventory)
  status := some "active"
  lastSeen := some (column data.now)

def EnrollAgentData.identityRow (data : EnrollAgentData) : AgentIdentity where
  agentId := data.identity.agentId
  deviceId := data.identity.deviceId
  encryptedSecret := data.identity.encryptedSecret
  hostname := data.identity.inventory.hostname
  os := data.identity.inventory.os
  architecture := data.identity.inventory.architecture
  agentVersion := data.identity.inventory.agentVersion
  resticVersion := orNull data.identity.inventory.resticVersion
  rcloneVersion := orNull data.identity.inventory.rcloneVersion
  capabilities := data.identity.inventory.capabilities
  lastSeen := some (column data.now)

def EnrollAgentData.commandRow (data : EnrollAgentData) : NewCommand where
  id := data.command.id
  agentId := data.command.agentId
  type := data.command.type
  payload := data.command.payload
  createdAt := column data.now
  idempotencyKey := data.command.idempotencyKey

/-- The statements of the transaction; an error rolls all of them back. -/
def enrollRows (data : EnrollAgentData) (db : Database) :
    Except StoreError (Option AgentEnrollmentToken × Database) :=
  let cond := claimCond data.tokenHash data.now
  let tokens := db.tokens.update cond (claimSet data.now) (by simp [tokenColumns, claimSet])
  match (Table.returning db.tokens.rows cond (claimSet data.now)).head? with
  | none => .ok (none, { db with tokens })
  | some enrollment => do
    refuseIf (db.devices.rows.any (·.id == data.device.id)) (.error "Device is already enrolled.")
    let devices ← insert db.devices (data.deviceRow enrollment)
    let identities ← insert db.identities data.identityRow
    let commands ← insert db.commands data.commandRow
    return (some enrollment, { tokens, devices, identities, commands })

def enrollAgent (data : EnrollAgentData) (db : Database) :
    Except StoreError (Option AgentEnrollmentToken × Database) := do
  refuseIf (!agentCommandTypes.contains data.command.type)
    (.error "REMOTE_CAPABILITY_NOT_IMPLEMENTED")
  refuseIf (data.device.id != data.identity.deviceId ||
      data.device.agentId != data.identity.agentId ||
      data.command.agentId !=
        data.identity.agentId) (.error "Agent enrollment data is inconsistent.")
  enrollRows data db

/-! ## Statements on identities and devices -/

/-- Condition of the first statement of `updateHeartbeat`. -/
def heartbeatCond (agentId : String) (identity : AgentIdentity) : Bool :=
  identity.agentId == agentId && identity.revokedAt.isNone

def heartbeatSet (inventory : AgentInventory) (now : Nat) (identity : AgentIdentity) :
    AgentIdentity :=
  { identity with
    hostname := inventory.hostname
    os := inventory.os
    architecture := inventory.architecture
    agentVersion := inventory.agentVersion
    resticVersion := orNull inventory.resticVersion
    rcloneVersion := orNull inventory.rcloneVersion
    capabilities := inventory.capabilities
    lastSeen := some (column now) }

/-- Assignments of the second statement of `updateHeartbeat`. -/
def seenSet (inventory : AgentInventory) (now : Nat) (device : Device) : Device :=
  { device with
    hostname := some inventory.hostname
    os := some inventory.os
    platform := some inventory.architecture
    versions := some (versionsOf inventory)
    status := some "active"
    lastSeen := some (column now) }

/-- Condition of the first statement of `revokeAgentByDeviceId`. -/
def revokeIdentityCond (deviceId : String) (identity : AgentIdentity) : Bool :=
  identity.deviceId == deviceId && identity.revokedAt.isNone

def revokeIdentitySet (now : Nat) (identity : AgentIdentity) : AgentIdentity :=
  { identity with revokedAt := some (column now) }

/-- Assignments of the second statement of `revokeAgentByDeviceId`. -/
def revokedSet (agent : AgentIdentity) (device : Device) : Device :=
  { device with status := some "revoked", lastSeen := agent.lastSeen }

/-! ## Calls of the service -/

/-- What an enrollment draws: the random parts of its ids, the secret and its encryption. -/
structure Drawn where
  deviceUid : String
  agentUid : String
  secret : String
  encryptedSecret : String
  commandId : String
  idempotencyKey : String
  deriving DecidableEq

def Drawn.deviceId (drawn : Drawn) : String := "remote-" ++ drawn.deviceUid

def Drawn.agentId (drawn : Drawn) : String := "agent-" ++ drawn.agentUid

inductive Call where
  | createEnrollment (name id token : String)
  | revokeEnrollment (id : String)
  | enroll (token : String) (inventory : AgentInventory) (drawn : Drawn)
  | authenticate (input : Replay.Input)
  | heartbeat (agentId : String) (inventory : AgentInventory)
  | revokeDevice (deviceId : String)
  deriving DecidableEq

structure AppError where
  status : Nat
  message : String
  deriving DecidableEq

inductive Ret where
  | created (id token : String) (expiresAt : Nat) (deviceName : String)
  | enrollmentRevoked
  | enrolled (deviceId agentId secret : String) (pollIntervalSeconds : Nat)
  /-- The nonce of the request is reserved after this. -/
  | identified (agent : Replay.AuthenticatedAgent)
  | alive (agent : AgentIdentity)
  | deviceRevoked
  | refused (error : AppError)
  /-- A statement was rejected by the database. -/
  | failed
  deriving DecidableEq

/-- The statement a call waits for, or what it makes of the statement that has ended. `now` is the
clock of the call. -/
inductive Loc where
  | insertToken (name id token : String) (expiresAt : Nat)
  | revokeToken (id : String) (now : Nat)
  | enroll (token : String) (inventory : AgentInventory) (drawn : Drawn)
  | findIdentity (input : Replay.Input) (request : Replay.Request)
  | heartbeatIdentity (agentId : String) (inventory : AgentInventory) (now : Nat)
  | heartbeatDevice (agent : AgentIdentity) (inventory : AgentInventory) (now : Nat)
  | revokeIdentity (deviceId : String) (now : Nat)
  | revokeDevice (deviceId : String) (agent : AgentIdentity)
  /-- The last statement has ended, and the call's answer is a later turn. -/
  | answer (ret : Ret)
  deriving DecidableEq

def authenticationFailed : AppError := ⟨401, "Agent authentication failed."⟩

variable (prim : Replay.Primitives)

/-- `hashToken` -/
def hashToken (token : String) : String := prim.sha256 token

/-- The part of a call before its first `await`. An enrollment reads the clock in the turn of
its transaction. -/
def enter (clock : Nat) : Call → Phase Loc Ret
  | .createEnrollment name id token =>
      .waiting (.insertToken name id token (clock + 15 * 60 * 1000))
  | .revokeEnrollment id => .waiting (.revokeToken id clock)
  | .enroll token inventory drawn => .waiting (.enroll token inventory drawn)
  | .authenticate input =>
    match Replay.parseRequest prim clock input with
    | some request => .waiting (.findIdentity input request)
    | none => .returned (.refused authenticationFailed)
  | .heartbeat agentId inventory => .waiting (.heartbeatIdentity agentId inventory clock)
  | .revokeDevice deviceId => .waiting (.revokeIdentity deviceId clock)

/-- What `enroll` passes to the store. -/
def enrollData (clock : Nat) (token : String) (inventory : AgentInventory) (drawn : Drawn) :
    EnrollAgentData where
  tokenHash := hashToken prim token
  now := clock
  device := ⟨drawn.deviceId, drawn.agentId, inventory⟩
  identity := ⟨drawn.agentId, drawn.deviceId, drawn.encryptedSecret, inventory⟩
  command := ⟨drawn.commandId, drawn.agentId, .inventoryRefresh, [], drawn.idempotencyKey⟩

def getAgentById (db : Database) (agentId : String) : Option AgentIdentity :=
  db.identities.rows.find? (·.agentId == agentId)

/-- One statement of a call, or what follows it up to the answer. A statement is durable before
its call goes on: the process may end between the two. -/
def resume (clock : Nat) (_ : Unit) (db : Database) : Loc → Database × Phase Loc Ret
  | .insertToken name id token expiresAt =>
    match db.tokens.insert? ⟨id, hashToken prim token, name, column expiresAt, none, none⟩ with
    | some tokens => ({ db with tokens }, .waiting (.answer (.created id token expiresAt name)))
    | none => (db, .waiting (.answer .failed))
  | .revokeToken id now =>
    let tokens := db.tokens.update (revokeCond id) (revokeSet now)
      (by simp [tokenColumns, revokeSet])
    match (Table.returning db.tokens.rows (revokeCond id) (revokeSet now)).head? with
    | some _ => ({ db with tokens }, .waiting (.answer .enrollmentRevoked))
    | none =>
      ({ db with tokens },
        .waiting (.answer (.refused ⟨404, "Enrollment token was not found or is already used."⟩)))
  | .enroll token inventory drawn =>
    match enrollAgent (enrollData prim clock token inventory drawn) db with
    | .ok (some _, db) =>
      (db, .waiting (.answer (.enrolled drawn.deviceId drawn.agentId drawn.secret 15)))
    | .ok (none, db) =>
      (db, .waiting (.answer (.refused
        ⟨401, "Enrollment token is invalid, expired, revoked, or already used."⟩)))
    | .error _ =>
      (db, .waiting (.answer (.refused
        ⟨500, "Enrollment could not be completed. Create a new enrollment token."⟩)))
  | .findIdentity input request =>
    match Replay.checkIdentity prim input request
        ((getAgentById db request.agentId).map AgentIdentity.credential) with
    | some agent => (db, .waiting (.answer (.identified agent)))
    | none => (db, .waiting (.answer (.refused authenticationFailed)))
  | .heartbeatIdentity agentId inventory now =>
    let cond := heartbeatCond agentId
    let set := heartbeatSet inventory now
    let identities := db.identities.update cond set (by simp [identityColumns, set, heartbeatSet])
    match (Table.returning db.identities.rows cond set).head? with
    | some agent => ({ db with identities }, .waiting (.heartbeatDevice agent inventory now))
    | none => ({ db with identities }, .waiting (.answer (.refused authenticationFailed)))
  | .heartbeatDevice agent inventory now =>
    let devices := db.devices.update (·.id == agent.deviceId) (seenSet inventory now)
      (by simp [deviceColumns, seenSet])
    ({ db with devices }, .waiting (.answer (.alive agent)))
  | .revokeIdentity deviceId now =>
    let cond := revokeIdentityCond deviceId
    let set := revokeIdentitySet now
    let identities :=
      db.identities.update cond set (by simp [identityColumns, set, revokeIdentitySet])
    match (Table.returning db.identities.rows cond set).head? with
    | some agent => ({ db with identities }, .waiting (.revokeDevice deviceId agent))
    | none =>
      ({ db with identities },
        .waiting (.answer (.refused ⟨404, "Remote machine was not found or is already revoked."⟩)))
  | .revokeDevice deviceId agent =>
    let devices := db.devices.update (·.id == deviceId) (revokedSet agent)
      (by simp [deviceColumns, revokedSet])
    ({ db with devices }, .waiting (.answer .deviceRevoked))
  | .answer ret => (db, .returned ret)

/-- The enrollment half of `AgentService`. -/
def service : Program Database Call Unit Loc Ret where
  enter := enter prim
  resume := resume prim

abbrev State := Config Database Call Loc Ret

end Pluton.Agent.Enrollment
