-- SUMMARY: The revocation of a device: no later call is let in as its agent.
import Pluton.Agent.EnrollmentRuns

/-!
# Revoked devices

A revocation is two statements, and calls of the agent may run between them and beside them.
Once it is answered the identity stays revoked, and no call that is made later is let in as
the agent, whatever else was on its way.
-/
namespace Pluton.Agent.Enrollment

open Await

variable {prim : Replay.Primitives} {db db' db₀ : Database} {s : State} {row : AgentIdentity}

/-! ## Revoked identities -/

/-- The identity of the device is there, and it is revoked. -/
def Revoked (db : Database) (deviceId : String) : Prop :=
  ∃ row ∈ db.identities.rows, row.deviceId = deviceId ∧ row.revokedAt ≠ none

theorem revoked_mem (h : Keeps db db') (hrow : row ∈ db.identities.rows)
    (hrevoked : row.revokedAt ≠ none) :
    row ∈ db'.identities.rows := by
  obtain ⟨row', hrow', -, -, -, hsettled⟩ := h.identities row hrow
  rw [← hsettled hrevoked]
  exact hrow'

theorem Revoked.keeps {deviceId : String} (h : Revoked db deviceId) (hkeeps : Keeps db db') :
    Revoked db' deviceId := by
  obtain ⟨row, hrow, hdevice, hrevoked⟩ := h
  exact ⟨row, revoked_mem hkeeps hrow hrevoked, hdevice, hrevoked⟩

/-- The agent of a revoked identity is not the agent of another. -/
theorem eq_of_agentId {other : AgentIdentity} (hrow : row ∈ db.identities.rows)
    (hother : other ∈ db.identities.rows) (hsame : other.agentId = row.agentId) : other = row :=
  db.identities.eq_of_column List.mem_cons_self hother hrow (congrArg some hsame) rfl

/-! ## What is said of the identities -/

/-- A revocation that has come to its second statement, or further, has revoked the identity. -/
def Revokes (db : Database) : Call → Phase Loc Ret → Prop
  | .revokeDevice deviceId, .waiting (.revokeDevice ..) => Revoked db deviceId
  | .revokeDevice deviceId, .waiting (.answer .deviceRevoked) => Revoked db deviceId
  | .revokeDevice deviceId, .returned .deviceRevoked => Revoked db deviceId
  | _, _ => True

theorem Revokes.keeps {c : Call} {phase : Phase Loc Ret} (h : Revokes db c phase)
    (hkeeps : Keeps db db') :
    Revokes db' c phase := by
  unfold Revokes at h ⊢
  split at h <;> first | exact h.keeps hkeeps | exact True.intro

theorem revokes_resume (prim : Replay.Primitives) (clock : Nat) {c : Call} {l : Loc}
    (hsaid : Says db c (.waiting l)) (h : Revokes db c (.waiting l)) :
    Revokes (resume prim clock () db l).1 c (resume prim clock () db l).2 := by
  cases c with
  | revokeDevice deviceId =>
    cases l with
    | answer ret => cases ret <;> exact h
    | revokeIdentity deviceId' now =>
      cases hsaid.own rfl rfl
      cases hfound : (Table.returning db.identities.rows (revokeIdentityCond deviceId)
          (revokeIdentitySet now)).head? with
      | none =>
        simp only [resume, hfound]
        exact True.intro
      | some agent =>
        simp only [resume, hfound]
        obtain ⟨old, hold, hcond, -⟩ := Table.of_head?_returning hfound
        exact ⟨revokeIdentitySet now old, Table.mem_update.mpr ⟨old, hold, if_pos hcond⟩,
          beq_iff_eq.mp (Bool.and_eq_true_iff.mp hcond).1, Option.some_ne_none _⟩
    | revokeDevice deviceId' agent => exact h
    | _ => cases hsaid.own rfl rfl
  | _ => exact True.intro

theorem revoked_rely (prim : Replay.Primitives) :
    Rely (service prim) (fun g _ _ => g) (fun _ _ _ => True) (fun (_ : Unit) _ _ => True)
      (fun _ _ db _ c phase => Says db c phase ∧ Revokes db c phase) where
  tick := fun _ _ => ⟨trivial, id⟩
  call := by
    intro g s c _ _
    refine ⟨trivial, ⟨says_enter prim s.clock s.shared c, ?_⟩, fun _ => id⟩
    cases c <;> exact True.intro
  crash := by
    intro g s _ _
    refine ⟨trivial, ?_⟩
    intro i c phase h
    rcases crash_cases ⟨c, phase⟩ with hsame | ⟨-, hlost⟩
    · rw [hsame]
      exact h
    · rw [hlost]
      exact ⟨.lost s.shared c, by cases c <;> exact True.intro⟩
  idle := fun _ _ _ => ⟨trivial, id⟩
  resume := by
    intro g s i e c l _ _ _ h
    have hkeeps := (resume_turn prim s.clock s.shared l).keeps
    exact ⟨trivial, ⟨says_resume prim s.clock h.1, revokes_resume prim s.clock h.1 h.2⟩,
      fun _ _ h' => ⟨h'.1.keeps hkeeps, h'.2.keeps hkeeps⟩⟩

/-! ## Calls made after the revocation -/

/-- The call is not let in as the agent, and will not be. -/
def Shut (agentId : String) : Call → Phase Loc Ret → Prop
  | .heartbeat agentId' _, phase => agentId' = agentId →
    (∃ inventory now, phase = .waiting (.heartbeatIdentity agentId inventory now)) ∨
      answerOf phase = some (.refused authenticationFailed) ∨ phase = .lost
  | .authenticate _, phase =>
    ∀ agent, answerOf phase = some (.identified agent) → agent.agentId ≠ agentId
  | _, _ => True

theorem shut_enter (prim : Replay.Primitives) (clock : Nat) (agentId : String) (c : Call) :
    Shut agentId c (enter prim clock c) := by
  cases c with
  | heartbeat agentId' inventory =>
    rintro rfl
    exact .inl ⟨inventory, clock, rfl⟩
  | authenticate input =>
    intro agent hphase
    cases hrequest : Replay.parseRequest prim clock input with
    | none =>
      simp only [enter, hrequest] at hphase
      cases hphase
    | some request =>
      simp only [enter, hrequest] at hphase
      cases hphase
  | _ => exact True.intro

/-- The identity that authenticates a request is not revoked. -/
theorem identified_of_findIdentity {clock : Nat} {input : Replay.Input} {request : Replay.Request}
    {agent : Replay.AuthenticatedAgent}
    (h : answerOf (resume prim clock () db (.findIdentity input request)).2 =
      some (.identified agent)) :
    ∃ identity ∈ db.identities.rows, identity.revokedAt = none ∧
      agent.agentId = identity.agentId := by
  cases hcheck : Replay.checkIdentity prim input request
      ((getAgentById db request.agentId).map AgentIdentity.credential) with
  | none =>
    simp only [resume, hcheck] at h
    cases h
  | some found =>
    simp only [resume, hcheck] at h
    cases h
    simp only [Replay.checkIdentity, Option.bind_eq_bind, Option.bind_eq_some_iff] at hcheck
    obtain ⟨credential, hcredential, _, hguard, secret, -, _, -, hfound⟩ := hcheck
    obtain ⟨hfind, -⟩ := Option.filter_eq_some_iff.mp hcredential
    obtain ⟨identity, hidentity, rfl⟩ := Option.map_eq_some_iff.mp hfind
    obtain rfl := Option.some.inj hfound
    refine ⟨identity, List.mem_of_find?_eq_some hidentity, ?_, rfl⟩
    cases hrevoked : identity.revokedAt with
    | none => rfl
    | some revokedAt => simp [AgentIdentity.credential, hrevoked, guard] at hguard

/-- The first statement of a heartbeat finds no revoked identity. -/
theorem heartbeatIdentity_refused (prim : Replay.Primitives) (clock : Nat)
    (hrow : row ∈ db.identities.rows) (hrevoked : row.revokedAt ≠ none) (inventory : AgentInventory)
    (now : Nat) :
    answerOf (resume prim clock () db (.heartbeatIdentity row.agentId inventory now)).2 =
      some (.refused authenticationFailed) := by
  cases hfound : (Table.returning db.identities.rows (heartbeatCond row.agentId)
      (heartbeatSet inventory now)).head? with
  | none =>
    simp only [resume, hfound]
    rfl
  | some agent =>
    obtain ⟨old, hold, hcond, -⟩ := Table.of_head?_returning hfound
    obtain ⟨hsame, hunrevoked⟩ := Bool.and_eq_true_iff.mp hcond
    rw [eq_of_agentId hrow hold (beq_iff_eq.mp hsame)] at hunrevoked
    exact absurd (Option.isNone_iff_eq_none.mp hunrevoked) hrevoked

theorem shut_resume (prim : Replay.Primitives) (clock : Nat) (hrow : row ∈ db.identities.rows)
    (hrevoked : row.revokedAt ≠ none) {c : Call} {l : Loc} (hsaid : Says db c (.waiting l))
    (h : Shut row.agentId c (.waiting l)) : Shut row.agentId c (resume prim clock () db l).2 := by
  cases c with
  | heartbeat agentId inventory =>
    intro hsame
    rcases h hsame with ⟨inventory', now, hwaiting⟩ | hrefused | hlost
    · cases hwaiting
      exact .inr (.inl (heartbeatIdentity_refused prim clock hrow hrevoked inventory' now))
    · cases l with
      | answer ret => exact .inr (.inl hrefused)
      | _ => cases hrefused
    · cases hlost
  | authenticate input =>
    cases l with
    | answer ret => exact h
    | findIdentity input' request =>
      intro agent hidentified hsame
      obtain ⟨identity, hidentity, hunrevoked, hagent⟩ := identified_of_findIdentity hidentified
      rw [eq_of_agentId hrow hidentity (hagent.symm.trans hsame)] at hunrevoked
      exact hrevoked hunrevoked
    | _ => cases hsaid.own rfl rfl
  | _ => exact True.intro

/-- The calls from `n` on are not let in as the agent of the revoked identity. -/
theorem shut_rely (prim : Replay.Primitives) (hrevoked : row.revokedAt ≠ none) (n : Nat) :
    Rely (service prim) (fun g _ _ => g) (fun _ _ _ => True)
      (fun (_ : Unit) _ db => row ∈ db.identities.rows)
      (fun _ _ db i c phase => Says db c phase ∧ (n ≤ i → Shut row.agentId c phase)) where
  tick := fun _ hrow => ⟨hrow, id⟩
  call := by
    intro g s c _ hrow
    exact ⟨hrow, ⟨says_enter prim s.clock s.shared c,
      fun _ => shut_enter prim s.clock row.agentId c⟩, fun _ => id⟩
  crash := by
    intro g s _ hrow
    refine ⟨hrow, ?_⟩
    intro i c phase h
    rcases crash_cases ⟨c, phase⟩ with hsame | ⟨-, hlost⟩
    · rw [hsame]
      exact h
    · rw [hlost]
      refine ⟨.lost s.shared c, fun _ => ?_⟩
      cases c with
      | heartbeat agentId inventory => exact fun _ => .inr (.inr rfl)
      | authenticate input => exact nofun
      | _ => exact True.intro
  idle := fun _ _ hrow => ⟨hrow, id⟩
  resume := by
    intro g s i e c l _ _ hrow h
    have hkeeps := (resume_turn prim s.clock s.shared l).keeps
    exact ⟨revoked_mem hkeeps hrow hrevoked, ⟨says_resume prim s.clock h.1,
      fun hi => shut_resume prim s.clock hrow hrevoked h.1 (h.2 hi)⟩,
      fun _ _ h' => ⟨h'.1.keeps hkeeps, h'.2⟩⟩

/-! ## After a revocation -/

theorem holds_run {Sh : Unit → Nat → Database → Prop}
    {Lc : Unit → Nat → Database → Nat → Call → Phase Loc Ret → Prop}
    (hrely : Rely (service prim) (fun g _ _ => g) (fun _ _ _ => True) Sh Lc) (h : Holds Sh Lc () s)
    (ls : List (Label Call Unit)) : Holds Sh Lc () ((service prim).run s ls) := by
  induction ls generalizing s with
  | nil => exact h
  | cons label ls ih => exact ih (hrely.holds_step () s label True.intro h)

/-- The identity is revoked, and no call from `n` on is let in as its agent. -/
structure Ousted (n : Nat) (row : AgentIdentity) (s : State) : Prop where
  kept : row ∈ s.shared.identities.rows
  revoked : row.revokedAt ≠ none
  shut : ∀ {i c phase}, n ≤ i → s.tasks[i]? = some ⟨c, phase⟩ → Shut row.agentId c phase

/-- A revocation that was answered ousts the agent of the device from every call made later. -/
theorem revokeDevice_ousts (prim : Replay.Primitives) (clock : Nat) (db₀ : Database)
    (before after : List (Label Call Unit)) {k : Nat} {deviceId : String}
    (h : ((service prim).run ⟨clock, db₀, []⟩ before).tasks[k]? =
      some ⟨.revokeDevice deviceId, .returned .deviceRevoked⟩) :
    ∃ row, row.deviceId = deviceId ∧
      Ousted ((service prim).run ⟨clock, db₀, []⟩ before).tasks.length row
      ((service prim).run ⟨clock, db₀, []⟩ (before ++ after)) := by
  have hbefore :=
    holds_run (s := ⟨clock, db₀, []⟩) (revoked_rely prim) ⟨True.intro, fun hi => by cases hi⟩ before
  obtain ⟨row, hrow, hdevice, hrevoked⟩ := (hbefore.local_ h).2
  rw [Program.run_append]
  -- the calls made so far say what they say; none from here on is there yet
  have hafter :=
    holds_run (shut_rely prim hrevoked ((service prim).run ⟨clock, db₀, []⟩ before).tasks.length)
    ⟨hrow, fun hi => ⟨(hbefore.local_ hi).1,
      fun hle => absurd (List.getElem?_eq_some_iff.mp hi).1 (Nat.not_lt.mpr hle)⟩⟩ after
  exact ⟨row, hdevice, hafter.shared, hrevoked, fun hle hi => (hafter.local_ hi).2 hle⟩

/-- An agent enrolls, and its device is revoked. -/
def sampleRevocation : List (Label Call Unit) :=
  [.call (.createEnrollment "machine" "id" "token"), .resume 0 (), .resume 0 (),
    .call (.enroll "token" sampleInventory sampleDrawn), .resume 1 (), .resume 1 (),
    .call (.revokeDevice "remote-device"), .resume 2 (), .resume 2 (), .resume 2 ()]

theorem revokeDevice_ousts_of_sample :
    ∃ row, row.deviceId = "remote-device" ∧ Ousted 3 row
      ((service Replay.samplePrimitives).run ⟨1000, .empty, []⟩
        (sampleRevocation ++ [.call (.heartbeat "agent-agent" sampleInventory), .resume 3 ()])) :=
  revokeDevice_ousts Replay.samplePrimitives 1000 .empty sampleRevocation _ (k := 2) (by decide)

end Pluton.Agent.Enrollment
