-- SUMMARY: What every statement of an enrollment or revocation keeps, adds and may answer.
import Pluton.Agent.Enrollment

/-!
# What the statements keep

A statement either enrolls an agent, and then claims a token and adds three rows, or is one
of a few changes that keep every key and every settled row. What a call's answer says of the
tables is said of every later database too.
-/
namespace Pluton.Agent.Enrollment

open Await
open Except (refuseIf refuseIf_eq_ok bind_eq_ok pure_eq_ok)

variable {prim : Replay.Primitives} {db db' : Database} {data : EnrollAgentData}
  {enrollment : AgentEnrollmentToken}

/-- What an enrollment that claimed a token writes. -/
structure Enrolls (data : EnrollAgentData) (db : Database) (enrollment : AgentEnrollmentToken)
    (db' : Database) : Prop where
  claimed : ∃ row ∈ db.tokens.rows, claimCond data.tokenHash data.now row = true ∧
    claimSet data.now row = enrollment
  tokens : db'.tokens.rows =
    Table.update db.tokens.rows (claimCond data.tokenHash data.now) (claimSet data.now)
  devices : db'.devices.rows = db.devices.rows ++ [data.deviceRow enrollment]
  identities : db'.identities.rows = db.identities.rows ++ [data.identityRow]
  commands : db'.commands.rows = db.commands.rows ++ [data.commandRow]

theorem rows_insert {ρ : Type} {columns : List (ρ → Option String)} {t t' : Table.Unique columns}
    {row : ρ} (h : insert t row = .ok t') : t'.rows = t.rows ++ [row] := by
  unfold insert at h
  cases hinsert : t.insert? row with
  | none =>
    rw [hinsert] at h
    cases h
  | some inserted =>
    rw [hinsert] at h
    cases h
    exact Table.Unique.rows_insert? hinsert

/-- An enrollment claims a token and writes its rows, or leaves every row as it is. -/
theorem enrollRows_cases {claimed : Option AgentEnrollmentToken}
    (h : enrollRows data db = .ok (claimed, db')) :
    (claimed = none ∧ db'.tokens.rows = db.tokens.rows ∧ db'.devices = db.devices ∧
      db'.identities = db.identities ∧
      db'.commands = db.commands) ∨ ∃ enrollment,
        claimed = some enrollment ∧ Enrolls data db enrollment db' := by
  unfold enrollRows at h
  cases hclaim : (Table.returning db.tokens.rows (claimCond data.tokenHash data.now)
    (claimSet data.now)).head? with
  | none =>
    simp only [hclaim] at h
    cases h
    exact .inl ⟨rfl, Table.update_of_head?_returning hclaim, rfl, rfl, rfl⟩
  | some enrollment =>
    simp only [hclaim, bind_eq_ok, pure_eq_ok] at h
    obtain ⟨-, -, devices, hdevices, identities, hidentities, commands, hcommands, heq⟩ := h
    cases heq
    exact .inr ⟨enrollment, rfl, Table.of_head?_returning hclaim, rfl, rows_insert hdevices,
      rows_insert hidentities, rows_insert hcommands⟩

/-- What every statement but that of an enrollment may do. -/
inductive Change (db : Database) : Database → Prop
  | kept {after : Database} (tokens : after.tokens.rows = db.tokens.rows)
    (devices : after.devices = db.devices) (identities : after.identities = db.identities)
    (commands : after.commands = db.commands) : Change db after
  | token {row tokens} (hnew : row.usedAt = none ∧ row.revokedAt = none)
    (h : tokens.rows = db.tokens.rows ++ [row]) : Change db { db with tokens }
  | revokeToken {id now tokens}
    (h : tokens.rows = Table.update db.tokens.rows (revokeCond id) (revokeSet now)) :
    Change db { db with tokens }
  | identities {cond set identities}
    (h : identities.rows = Table.update db.identities.rows cond set)
    (hcond : ∀ row, cond row = true → row.revokedAt = none)
    (hset : ∀ row, (set row).agentId = row.agentId ∧ (set row).deviceId = row.deviceId ∧
      (set row).encryptedSecret = row.encryptedSecret) : Change db { db with identities }
  | devices {cond set devices} (h : devices.rows = Table.update db.devices.rows cond set)
    (hset : ∀ row, (set row).id = row.id ∧ (set row).agentId = row.agentId ∧
      (set row).type = row.type) : Change db { db with devices }

/-- The answer of a call, given or still to be given. -/
def answerOf : Phase Loc Ret → Option Ret
  | .waiting (.answer ret) => some ret
  | .returned ret => some ret
  | _ => none

/-- The answer of an enrollment. -/
def Drawn.answer (drawn : Drawn) : Ret := .enrolled drawn.deviceId drawn.agentId drawn.secret 15

def Ret.isEnrolled : Ret → Bool
  | .enrolled .. => true
  | _ => false

/-- An enrollment that was committed: by which call, with which token, and what it drew. -/
structure Commit where
  call : Nat
  token : String
  drawn : Drawn

/-- The transaction of an enrollment claims its token and is committed. -/
def commits (prim : Replay.Primitives) (clock : Nat) (db : Database) (token : String)
    (inventory : AgentInventory) (drawn : Drawn) : Bool :=
  match enrollAgent (enrollData prim clock token inventory drawn) db with
  | .ok (some _, _) => true
  | _ => false

/-- One turn of a call: it commits an enrollment, gives its answer, or does neither. -/
inductive Turn (prim : Replay.Primitives) (clock : Nat) (db : Database) :
    Loc → Database → Phase Loc Ret → Prop
  | commits {token inventory drawn enrollment after}
      (committed : commits prim clock db token inventory drawn = true)
      (enrolls : Enrolls (enrollData prim clock token inventory drawn) db enrollment after) :
      Turn prim clock db (.enroll token inventory drawn) after (.waiting (.answer drawn.answer))
  | answers {ret} : Turn prim clock db (.answer ret) db (.returned ret)
  | changes {l after phase} (change : Change db after) (unanswered : ∀ ret, l ≠ .answer ret)
      (uncommitted : ∀ token inventory drawn, l = .enroll token inventory drawn →
        commits prim clock db token inventory drawn = false)
      (unenrolled : ∀ ret, answerOf phase = some ret → ret.isEnrolled = false) :
      Turn prim clock db l after phase

theorem turn_enroll (prim : Replay.Primitives) (clock : Nat) (db : Database) (token : String)
    (inventory : AgentInventory) (drawn : Drawn) :
    Turn prim clock db (.enroll token inventory drawn)
      (resume prim clock () db (.enroll token inventory drawn)).1
      (resume prim clock () db (.enroll token inventory drawn)).2 := by
  cases henroll : enrollAgent (enrollData prim clock token inventory drawn) db with
  | error error =>
    simp only [resume, henroll]
    refine .changes (.kept rfl rfl rfl rfl) (fun ret => nofun) ?_ ?_
    · rintro _ _ _ ⟨⟩
      simp only [commits, henroll]
    · rintro _ ⟨⟩
      rfl
  | ok result =>
    obtain ⟨claimed, after⟩ := result
    have hrows := henroll
    simp only [enrollAgent, bind_eq_ok, refuseIf_eq_ok] at hrows
    obtain ⟨-, -, -, -, hrows⟩ := hrows
    rcases enrollRows_cases hrows with
      ⟨rfl, htokens, hdevices, hidentities, hcommands⟩ | ⟨enrollment, rfl, henrolls⟩
    · simp only [resume, henroll]
      refine .changes (.kept htokens hdevices hidentities hcommands) (fun ret => nofun) ?_ ?_
      · rintro _ _ _ ⟨⟩
        simp only [commits, henroll]
      · rintro _ ⟨⟩
        rfl
    · simp only [resume, henroll]
      exact .commits (by simp only [commits, henroll]) henrolls

/-- What a turn does, said once for all statements. -/
theorem resume_turn (prim : Replay.Primitives) (clock : Nat) (db : Database) (l : Loc) :
    Turn prim clock db l (resume prim clock () db l).1 (resume prim clock () db l).2 := by
  cases l with
  | enroll token inventory drawn => exact turn_enroll prim clock db token inventory drawn
  | answer ret => exact .answers
  | insertToken name id token expiresAt =>
    cases hinsert : db.tokens.insert? ⟨id, hashToken prim token, name,
      column expiresAt, none, none⟩ with
    -- A refused insert leaves the database as it is.
    | none =>
      simp only [resume, hinsert]
      exact .changes (.kept rfl rfl rfl rfl) (fun _ => nofun) (fun _ _ _ => nofun) (by
        rintro _ ⟨⟩; rfl)
    | some tokens =>
      simp only [resume, hinsert]
      exact .changes (.token ⟨rfl, rfl⟩ (Table.Unique.rows_insert? hinsert)) (fun _ => nofun)
        (fun _ _ _ => nofun) (by rintro _ ⟨⟩; rfl)
  | revokeToken id now =>
    cases hfound : (Table.returning db.tokens.rows (revokeCond id) (revokeSet now)).head? with
    | none =>
      simp only [resume, hfound]
      exact .changes (.revokeToken rfl) (fun _ => nofun) (fun _ _ _ => nofun) (by rintro _ ⟨⟩; rfl)
    | some row =>
      simp only [resume, hfound]
      exact .changes (.revokeToken rfl) (fun _ => nofun) (fun _ _ _ => nofun) (by rintro _ ⟨⟩; rfl)
  | findIdentity input request =>
    cases hagent : Replay.checkIdentity prim input request
        ((getAgentById db request.agentId).map AgentIdentity.credential) with
    | none =>
      simp only [resume, hagent]
      exact .changes (.kept rfl rfl rfl rfl) (fun _ => nofun) (fun _ _ _ => nofun) (by
        rintro _ ⟨⟩; rfl)
    | some agent =>
      simp only [resume, hagent]
      exact .changes (.kept rfl rfl rfl rfl) (fun _ => nofun) (fun _ _ _ => nofun) (by
        rintro _ ⟨⟩; rfl)
  | heartbeatIdentity agentId inventory now =>
    -- The heartbeat writes to an identity only while it is not revoked.
    have hcond : ∀ row, heartbeatCond agentId row = true → row.revokedAt = none := fun row hcond =>
      Option.isNone_iff_eq_none.mp (Bool.and_eq_true_iff.mp hcond).2
    have hchange : ∀ identities, identities.rows = Table.update db.identities.rows
        (heartbeatCond agentId) (heartbeatSet inventory now) → Change db { db with identities } :=
      fun _ hrows => .identities hrows hcond fun _ => ⟨rfl, rfl, rfl⟩
    cases hfound : (Table.returning db.identities.rows (heartbeatCond agentId)
        (heartbeatSet inventory now)).head? with
    | none =>
      simp only [resume, hfound]
      exact .changes (hchange _ rfl) (fun _ => nofun) (fun _ _ _ => nofun) (by rintro _ ⟨⟩; rfl)
    | some agent =>
      simp only [resume, hfound]
      exact .changes (hchange _ rfl) (fun _ => nofun) (fun _ _ _ => nofun) (by rintro _ ⟨⟩)
  | heartbeatDevice agent inventory now =>
    exact .changes (.devices rfl fun _ => ⟨rfl, rfl, rfl⟩) (fun _ => nofun) (fun _ _ _ => nofun)
      (by rintro _ ⟨⟩; rfl)
  | revokeIdentity deviceId now =>
    have hcond : ∀ row, revokeIdentityCond deviceId row = true →
        row.revokedAt = none := fun row hcond =>
      Option.isNone_iff_eq_none.mp (Bool.and_eq_true_iff.mp hcond).2
    have hchange : ∀ identities, identities.rows = Table.update db.identities.rows
        (revokeIdentityCond deviceId) (revokeIdentitySet now) → Change db { db with identities } :=
      fun _ hrows => .identities hrows hcond fun _ => ⟨rfl, rfl, rfl⟩
    -- Without a row to revoke the call ends here; with one, the device is still to be written.
    cases hfound : (Table.returning db.identities.rows (revokeIdentityCond deviceId)
        (revokeIdentitySet now)).head? with
    | none =>
      simp only [resume, hfound]
      exact .changes (hchange _ rfl) (fun _ => nofun) (fun _ _ _ => nofun) (by rintro _ ⟨⟩; rfl)
    | some agent =>
      simp only [resume, hfound]
      exact .changes (hchange _ rfl) (fun _ => nofun) (fun _ _ _ => nofun) (by rintro _ ⟨⟩)
  | revokeDevice deviceId agent =>
    exact .changes (.devices rfl fun _ => ⟨rfl, rfl, rfl⟩) (fun _ => nofun) (fun _ _ _ => nofun)
      (by rintro _ ⟨⟩; rfl)

/-! ## What every statement keeps -/

/-- A token row keeps its key, and it is settled once it is used or revoked. -/
def TokenKept (row row' : AgentEnrollmentToken) : Prop :=
  row'.id = row.id ∧ row'.tokenHash = row.tokenHash ∧ row'.expiresAt = row.expiresAt ∧
    (row.open_ = false → row' = row)

def DeviceKept (row row' : Device) : Prop :=
  row'.id = row.id ∧ row'.agentId = row.agentId ∧ row'.type = row.type

/-- An identity keeps its keys and its secret, and a revoked one is left alone. -/
def IdentityKept (row row' : AgentIdentity) : Prop :=
  row'.agentId = row.agentId ∧ row'.deviceId = row.deviceId ∧
    row'.encryptedSecret = row.encryptedSecret ∧
    (row.revokedAt ≠ none → row' = row)

/-- No row of the first database is missing in the second. -/
structure Keeps (db db' : Database) : Prop where
  tokens : ∀ row ∈ db.tokens.rows, ∃ row' ∈ db'.tokens.rows, TokenKept row row'
  devices : ∀ row ∈ db.devices.rows, ∃ row' ∈ db'.devices.rows, DeviceKept row row'
  identities : ∀ row ∈ db.identities.rows, ∃ row' ∈ db'.identities.rows, IdentityKept row row'
  commands : ∀ row ∈ db.commands.rows, row ∈ db'.commands.rows

theorem TokenKept.refl (row : AgentEnrollmentToken) : TokenKept row row :=
  ⟨rfl, rfl, rfl, fun _ => rfl⟩

theorem IdentityKept.refl (row : AgentIdentity) : IdentityKept row row :=
  ⟨rfl, rfl, rfl, fun _ => rfl⟩

theorem DeviceKept.refl (row : Device) : DeviceKept row row := ⟨rfl, rfl, rfl⟩

theorem kept_update {ρ : Type} {R : ρ → ρ → Prop} {rows : List ρ} {cond : ρ → Bool} {set : ρ → ρ}
    (hrefl : ∀ row, R row row) (h : ∀ row, cond row = true → R row (set row)) :
    ∀ row ∈ rows, ∃ row' ∈ Table.update rows cond set, R row row' := by
  intro row hrow
  refine ⟨_, Table.mem_update.mpr ⟨row, hrow, rfl⟩, ?_⟩
  split
  · next hcond => exact h row hcond
  · exact hrefl row

theorem kept_append {ρ : Type} {R : ρ → ρ → Prop} {rows added : List ρ} (hrefl : ∀ row, R row row) :
    ∀ row ∈ rows, ∃ row' ∈ rows ++ added, R row row' :=
  fun row hrow => ⟨row, List.mem_append_left added hrow, hrefl row⟩

theorem Keeps.refl (db : Database) : Keeps db db where
  tokens row hrow := ⟨row, hrow, .refl row⟩
  devices row hrow := ⟨row, hrow, .refl row⟩
  identities row hrow := ⟨row, hrow, .refl row⟩
  commands _ := id

theorem Enrolls.keeps (h : Enrolls data db enrollment db') : Keeps db db' where
  tokens := by
    rw [h.tokens]
    refine kept_update .refl fun row hcond => ⟨rfl, rfl, rfl, fun hopen => ?_⟩
    have hclaim := (Bool.and_eq_true_iff.mp (Bool.and_eq_true_iff.mp hcond).1).2
    rw [hopen] at hclaim
    cases hclaim
  devices := by
    rw [h.devices]
    exact kept_append .refl
  identities := by
    rw [h.identities]
    exact kept_append .refl
  commands row hrow := by
    rw [h.commands]
    exact List.mem_append_left _ hrow

theorem Change.keeps (h : Change db db') : Keeps db db' := by
  cases h with
  | kept tokens devices identities commands =>
    refine ⟨?_, ?_, ?_, ?_⟩
    · rw [tokens]
      exact (Keeps.refl db).tokens
    · rw [devices]
      exact (Keeps.refl db).devices
    · rw [identities]
      exact (Keeps.refl db).identities
    · rw [commands]
      exact (Keeps.refl db).commands
  | token hnew h =>
    refine { Keeps.refl db with tokens := ?_ }
    rw [h]
    exact kept_append .refl
  | revokeToken h =>
    refine { Keeps.refl db with tokens := ?_ }
    rw [h]
    refine kept_update .refl fun row hcond => ⟨rfl, rfl, rfl, fun hopen => ?_⟩
    have hrevoke := (Bool.and_eq_true_iff.mp hcond).2
    rw [hopen] at hrevoke
    cases hrevoke
  | identities h hcond hset =>
    refine { Keeps.refl db with identities := ?_ }
    rw [h]
    exact kept_update .refl fun row hrow =>
      ⟨(hset row).1, (hset row).2.1, (hset row).2.2, absurd (hcond row hrow)⟩
  | devices h hset =>
    refine { Keeps.refl db with devices := ?_ }
    rw [h]
    exact kept_update .refl fun row _ => hset row

theorem Turn.keeps {clock : Nat} {l : Loc} {phase : Phase Loc Ret}
    (h : Turn prim clock db l db' phase) :
    Keeps db db' := by
  cases h with
  | commits committed enrolls => exact enrolls.keeps
  | answers => exact .refl db
  | changes change => exact change.keeps

/-! ## What an enrollment adds -/

def Database.used (db : Database) : Nat := db.tokens.rows.countP (·.usedAt.isSome)

/-- From the first database to the second `n` tokens were used, and with each came one device,
one identity and one command. -/
structure Gained (db db' : Database) (n : Nat) : Prop where
  used : db'.used = db.used + n
  devices : db'.devices.rows.length = db.devices.rows.length + n
  identities : db'.identities.rows.length = db.identities.rows.length + n
  commands : db'.commands.rows.length = db.commands.rows.length + n

theorem Gained.trans {db'' : Database} {m n : Nat} (h : Gained db db' m) (h' : Gained db' db'' n) :
    Gained db db'' (m + n) where
  used := by rw [h'.used, h.used, Nat.add_assoc]
  devices := by rw [h'.devices, h.devices, Nat.add_assoc]
  identities := by rw [h'.identities, h.identities, Nat.add_assoc]
  commands := by rw [h'.commands, h.commands, Nat.add_assoc]

theorem Enrolls.gained (h : Enrolls data db enrollment db') : Gained db db' 1 where
  used := by
    obtain ⟨row, hrow, hcond, -⟩ := h.claimed
    have hone : db.tokens.rows.countP (claimCond data.tokenHash data.now) = 1 :=
      db.tokens.countP_eq_one (List.mem_cons_of_mem _ List.mem_cons_self) (fun r hr => congrArg some
        (beq_iff_eq.mp (Bool.and_eq_true_iff.mp (Bool.and_eq_true_iff.mp hr).1).1)) hrow hcond
    unfold Database.used
    rw [h.tokens, Table.countP_update, hone]
    intro r _ hr
    have hopen := (Bool.and_eq_true_iff.mp (Bool.and_eq_true_iff.mp hr).1).2
    have hunused : r.usedAt = none := Option.isNone_iff_eq_none.mp (Bool.and_eq_true_iff.mp hopen).1
    exact ⟨by rw [hunused]; rfl, rfl⟩
  devices := by rw [h.devices, List.length_append, List.length_singleton]
  identities := by rw [h.identities, List.length_append, List.length_singleton]
  commands := by rw [h.commands, List.length_append, List.length_singleton]

theorem Change.gained (h : Change db db') : Gained db db' 0 := by
  cases h with
  | kept tokens devices identities commands =>
    exact ⟨congrArg (List.countP _) tokens, by rw [devices]; rfl, by rw [identities]; rfl,
      by rw [commands]; rfl⟩
  | token hnew h =>
    refine ⟨?_, rfl, rfl, rfl⟩
    unfold Database.used
    rw [h, List.countP_append, List.countP_singleton, hnew.1]
    rfl
  | revokeToken h =>
    refine ⟨?_, rfl, rfl, rfl⟩
    unfold Database.used
    rw [h, Table.update, List.countP_map]
    refine List.countP_congr fun row _ => ?_
    rw [Function.comp_apply]
    split <;> exact Iff.rfl
  | identities h =>
    refine ⟨rfl, rfl, ?_, rfl⟩
    rw [h, Table.length_update]
    rfl
  | devices h =>
    refine ⟨rfl, ?_, rfl, rfl⟩
    rw [h, Table.length_update]
    rfl

/-! ## Tokens used in time -/

/-- A used token was used before the second in which it expires, and was not revoked. -/
def AgentEnrollmentToken.InTime (row : AgentEnrollmentToken) : Prop :=
  ∀ used, row.usedAt = some used → used < row.expiresAt ∧ row.revokedAt = none

def Database.InTime (db : Database) : Prop := ∀ row ∈ db.tokens.rows, row.InTime

theorem Enrolls.inTime (h : Enrolls data db enrollment db') (hdb : db.InTime) : db'.InTime := by
  intro row hrow
  rw [h.tokens] at hrow
  obtain ⟨old, hold, rfl⟩ := Table.mem_update.mp hrow
  split
  · next hcond =>
    obtain ⟨hclaim, hexpires⟩ := Bool.and_eq_true_iff.mp hcond
    have hunrevoked := (Bool.and_eq_true_iff.mp (Bool.and_eq_true_iff.mp hclaim).2).2
    intro used hused
    obtain rfl := Option.some.inj hused
    exact ⟨of_decide_eq_true hexpires, Option.isNone_iff_eq_none.mp hunrevoked⟩
  · exact hdb old hold

theorem Change.inTime (h : Change db db') (hdb : db.InTime) : db'.InTime := by
  cases h with
  | kept tokens devices identities commands =>
    intro row hrow
    rw [tokens] at hrow
    exact hdb row hrow
  | token hnew h =>
    intro row hrow
    rw [h] at hrow
    rcases List.mem_append.mp hrow with hold | hadded
    · exact hdb row hold
    · rw [List.mem_singleton.mp hadded]
      intro used hused
      rw [hnew.1] at hused
      cases hused
  | revokeToken h =>
    intro row hrow
    rw [h] at hrow
    obtain ⟨old, hold, rfl⟩ := Table.mem_update.mp hrow
    split
    · next hcond =>
      have hopen := (Bool.and_eq_true_iff.mp hcond).2
      have hunused : old.usedAt = none :=
        Option.isNone_iff_eq_none.mp (Bool.and_eq_true_iff.mp hopen).1
      intro used hused
      cases hunused.symm.trans hused
    · exact hdb old hold
  | identities h => exact hdb
  | devices h => exact hdb

/-! ## What the answers say of the tables -/

/-- The rows behind an enrollment that was answered. -/
structure Backed (db : Database) (tokenHash : String) (drawn : Drawn) : Prop where
  token : ∃ row ∈ db.tokens.rows, row.tokenHash = tokenHash ∧ row.usedAt ≠ none
  device : ∃ row ∈ db.devices.rows, row.id = drawn.deviceId ∧ row.agentId = some drawn.agentId ∧
    row.type = "remote-agent"
  identity : ∃ row ∈ db.identities.rows, row.agentId = drawn.agentId ∧
    row.deviceId = drawn.deviceId ∧
    row.encryptedSecret = drawn.encryptedSecret
  command : ∃ row ∈ db.commands.rows, row.agentId = drawn.agentId ∧ row.type = .inventoryRefresh

/-- The row of a token whose revocation was answered. -/
def Withdrawn (db : Database) (id : String) : Prop :=
  ∃ row ∈ db.tokens.rows, row.id = id ∧ row.usedAt = none ∧ row.revokedAt ≠ none

theorem Backed.keeps {tokenHash : String} {drawn : Drawn} (h : Backed db tokenHash drawn)
    (hkeeps : Keeps db db') :
    Backed db' tokenHash drawn := by
  obtain ⟨⟨token, htoken, hhash, hused⟩, ⟨device, hdevice, hid, hagent, htype⟩,
    ⟨identity, hidentity, hagentId, hdeviceId, hsecret⟩,
    ⟨command, hcommand, hfor, hrefresh⟩⟩ := h
  refine ⟨?_, ?_, ?_, ⟨command, hkeeps.commands command hcommand, hfor, hrefresh⟩⟩
  · obtain ⟨row, hrow, -, hsame, -, hsettled⟩ := hkeeps.tokens token htoken
    have hclosed : token.open_ = false := by
      unfold AgentEnrollmentToken.open_
      rw [Option.isNone_eq_false_iff.mpr (Option.isSome_iff_ne_none.mpr hused), Bool.false_and]
    obtain rfl := hsettled hclosed
    exact ⟨row, hrow, hhash, hused⟩
  · obtain ⟨row, hrow, hid', hagent', htype'⟩ := hkeeps.devices device hdevice
    exact ⟨row, hrow, hid'.trans hid, hagent'.trans hagent, htype'.trans htype⟩
  · obtain ⟨row, hrow, hagent', hdevice', hsecret', -⟩ := hkeeps.identities identity hidentity
    exact ⟨row, hrow, hagent'.trans hagentId, hdevice'.trans hdeviceId, hsecret'.trans hsecret⟩

theorem Withdrawn.keeps {id : String} (h : Withdrawn db id) (hkeeps : Keeps db db') :
    Withdrawn db' id := by
  obtain ⟨token, htoken, hid, hunused, hrevoked⟩ := h
  obtain ⟨row, hrow, -, -, -, hsettled⟩ := hkeeps.tokens token htoken
  have hclosed : token.open_ = false := by
    unfold AgentEnrollmentToken.open_
    rw [Option.isNone_eq_false_iff.mpr (Option.isSome_iff_ne_none.mpr hrevoked), Bool.and_false]
  obtain rfl := hsettled hclosed
  exact ⟨row, hrow, hid, hunused, hrevoked⟩

theorem Enrolls.backed {clock : Nat} {token : String} {inventory : AgentInventory} {drawn : Drawn}
    (h : Enrolls (enrollData prim clock token inventory drawn) db enrollment db') :
    Backed db' (hashToken prim token) drawn where
  token := by
    obtain ⟨row, hrow, hcond, -⟩ := h.claimed
    refine ⟨claimSet clock row, ?_, ?_, Option.some_ne_none _⟩
    · rw [h.tokens]
      exact Table.mem_update.mpr ⟨row, hrow, if_pos hcond⟩
    · exact beq_iff_eq.mp (Bool.and_eq_true_iff.mp (Bool.and_eq_true_iff.mp hcond).1).1
  device := by
    rw [h.devices]
    exact ⟨_, List.mem_append_right _ (List.mem_singleton.mpr rfl), rfl, rfl, rfl⟩
  identity := by
    rw [h.identities]
    exact ⟨_, List.mem_append_right _ (List.mem_singleton.mpr rfl), rfl, rfl, rfl⟩
  command := by
    rw [h.commands]
    exact ⟨_, List.mem_append_right _ (List.mem_singleton.mpr rfl), rfl, rfl⟩

/-- The call that a statement belongs to. -/
def Loc.call? : Loc → Option Call
  | .insertToken name id token _ => some (.createEnrollment name id token)
  | .revokeToken id _ => some (.revokeEnrollment id)
  | .enroll token inventory drawn => some (.enroll token inventory drawn)
  | .findIdentity input _ => some (.authenticate input)
  | .heartbeatIdentity agentId inventory _ => some (.heartbeat agentId inventory)
  | .heartbeatDevice agent inventory _ => some (.heartbeat agent.agentId inventory)
  | .revokeIdentity deviceId _ => some (.revokeDevice deviceId)
  | .revokeDevice deviceId _ => some (.revokeDevice deviceId)
  | .answer _ => none

/-- What the answer of a call says of the tables. -/
def Told (db : Database) : Call → Ret → Prop
  | .revokeEnrollment id, .enrollmentRevoked => Withdrawn db id
  | _, _ => True

/-- A statement that a call waits for is its own, and its answer is true,
given or still to be given. -/
structure Says (db : Database) (c : Call) (phase : Phase Loc Ret) : Prop where
  own : ∀ {l c'}, phase = .waiting l → l.call? = some c' → c' = c
  told : ∀ {ret}, answerOf phase = some ret → Told db c ret

theorem Told.keeps {c : Call} {ret : Ret} (h : Told db c ret) (hkeeps : Keeps db db') :
    Told db' c ret := by
  cases c with
  | revokeEnrollment id =>
    cases ret with
    | enrollmentRevoked => exact Withdrawn.keeps h hkeeps
    | _ => exact True.intro
  | _ => exact True.intro

theorem Says.keeps {c : Call} {phase : Phase Loc Ret} (h : Says db c phase)
    (hkeeps : Keeps db db') :
    Says db' c phase :=
  ⟨h.own, fun hret => (h.told hret).keeps hkeeps⟩

theorem Says.lost (db : Database) (c : Call) : Says db c .lost := ⟨nofun, nofun⟩

theorem says_enter (prim : Replay.Primitives) (clock : Nat) (db : Database) (c : Call) :
    Says db c (enter prim clock c) := by
  cases c with
  | authenticate input =>
    cases hrequest : Replay.parseRequest prim clock input with
    | none =>
      simp only [enter, hrequest]
      exact ⟨nofun, fun _ => True.intro⟩
    | some request =>
      simp only [enter, hrequest]
      exact ⟨by rintro _ _ ⟨⟩ ⟨⟩; rfl, nofun⟩
  | _ => exact ⟨by rintro _ _ ⟨⟩ ⟨⟩; rfl, nofun⟩

/-- No call has an agent for an answer before its first statement. -/
theorem unenrolled_enter (prim : Replay.Primitives) (clock : Nat) (c : Call) (ret : Ret)
    (h : answerOf (enter prim clock c) = some ret) : ret.isEnrolled = false := by
  cases c with
  | authenticate input =>
    cases hrequest : Replay.parseRequest prim clock input with
    | none =>
      simp only [enter, hrequest] at h
      cases h
      rfl
    | some request =>
      simp only [enter, hrequest] at h
      cases h
  | _ => cases h

theorem says_resume (prim : Replay.Primitives) (clock : Nat) {c : Call} {l : Loc}
    (h : Says db c (.waiting l)) :
    Says (resume prim clock () db l).1 c (resume prim clock () db l).2 := by
  cases l with
  | answer ret => exact ⟨nofun, h.told⟩
  | insertToken name id token expiresAt =>
    obtain rfl := h.own rfl rfl
    cases hinsert : db.tokens.insert? ⟨id, hashToken prim token, name,
      column expiresAt, none, none⟩ with
    | none =>
      simp only [resume, hinsert]
      exact ⟨by rintro _ _ ⟨⟩ ⟨⟩, fun _ => True.intro⟩
    | some tokens =>
      simp only [resume, hinsert]
      exact ⟨by rintro _ _ ⟨⟩ ⟨⟩, fun _ => True.intro⟩
  | revokeToken id now =>
    obtain rfl := h.own rfl rfl
    cases hfound : (Table.returning db.tokens.rows (revokeCond id) (revokeSet now)).head? with
    | none =>
      simp only [resume, hfound]
      exact ⟨by rintro _ _ ⟨⟩ ⟨⟩, by rintro _ ⟨⟩; exact True.intro⟩
    | some row =>
      simp only [resume, hfound]
      obtain ⟨old, hold, hcond, hset⟩ := Table.of_head?_returning hfound
      obtain ⟨hid, hopen⟩ := Bool.and_eq_true_iff.mp hcond
      refine ⟨by rintro _ _ ⟨⟩ ⟨⟩, ?_⟩
      rintro _ ⟨⟩
      exact ⟨revokeSet now old, Table.mem_update.mpr ⟨old, hold, if_pos hcond⟩, beq_iff_eq.mp hid,
        Option.isNone_iff_eq_none.mp (Bool.and_eq_true_iff.mp hopen).1, Option.some_ne_none _⟩
  | enroll token inventory drawn =>
    obtain rfl := h.own rfl rfl
    -- what it waits for next is the answer, and no statement
    refine ⟨fun {l' c'} hwaiting hcall => ?_, fun _ => True.intro⟩
    cases henroll : enrollAgent (enrollData prim clock token inventory drawn) db with
    | error error =>
      simp only [resume, henroll] at hwaiting
      cases hwaiting
      cases hcall
    | ok result =>
      obtain ⟨claimed, after⟩ := result
      cases claimed <;> simp only [resume, henroll] at hwaiting <;> cases hwaiting <;> cases hcall
  | findIdentity input request =>
    obtain rfl := h.own rfl rfl
    cases hagent : Replay.checkIdentity prim input request
        ((getAgentById db request.agentId).map AgentIdentity.credential) with
    | none =>
      simp only [resume, hagent]
      exact ⟨by rintro _ _ ⟨⟩ ⟨⟩, fun _ => True.intro⟩
    | some agent =>
      simp only [resume, hagent]
      exact ⟨by rintro _ _ ⟨⟩ ⟨⟩, fun _ => True.intro⟩
  | heartbeatIdentity agentId inventory now =>
    obtain rfl := h.own rfl rfl
    cases hfound : (Table.returning db.identities.rows (heartbeatCond agentId)
        (heartbeatSet inventory now)).head? with
    | none =>
      simp only [resume, hfound]
      exact ⟨by rintro _ _ ⟨⟩ ⟨⟩, fun _ => True.intro⟩
    | some agent =>
      simp only [resume, hfound]
      obtain ⟨old, -, hcond, rfl⟩ := Table.of_head?_returning hfound
      have hagent : old.agentId = agentId := beq_iff_eq.mp (Bool.and_eq_true_iff.mp hcond).1
      exact ⟨by rintro _ _ ⟨⟩ ⟨⟩; exact congrArg (Call.heartbeat · inventory) hagent, nofun⟩
  | heartbeatDevice agent inventory now =>
    obtain rfl := h.own rfl rfl
    exact ⟨by rintro _ _ ⟨⟩ ⟨⟩, fun _ => True.intro⟩
  | revokeIdentity deviceId now =>
    obtain rfl := h.own rfl rfl
    cases hfound : (Table.returning db.identities.rows (revokeIdentityCond deviceId)
        (revokeIdentitySet now)).head? with
    | none =>
      simp only [resume, hfound]
      exact ⟨by rintro _ _ ⟨⟩ ⟨⟩, fun _ => True.intro⟩
    | some agent =>
      simp only [resume, hfound]
      exact ⟨by rintro _ _ ⟨⟩ ⟨⟩; rfl, nofun⟩
  | revokeDevice deviceId agent =>
    obtain rfl := h.own rfl rfl
    exact ⟨by rintro _ _ ⟨⟩ ⟨⟩, fun _ => True.intro⟩

end Pluton.Agent.Enrollment
