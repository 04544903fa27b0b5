-- SUMMARY: Signed agent requests: `AgentService.authenticate`, the nonce table and replays.
import Mathlib.Data.Option.Basic
import Pluton.Await.Pool

/-!
# Replay protection of signed agent requests

`AgentService.authenticate` (`backend/src/services/AgentService.ts`) checks the
age of a signed timestamp once, before its first `await`. `reserveNonce`
(`backend/src/stores/AgentStore.ts`) later reads the clock again, purges the
rows that are older than that second reading, and inserts the nonce. The
cryptographic primitives and the parsing of numbers are parameters, and so is
what the environment answers at an `await`: the identity row found, and whether
the statement fails.
-/
namespace Pluton.Agent.Replay

open Await

/-- `AGENT_REQUEST_SKEW_MS` -/
def requestSkewMs : Nat := 5 * 60 * 1000

/-- Library functions that `authenticate` calls. `number` is `Number(text)` when
that is a safe integer. -/
structure Primitives where
  number : String → Option Int
  decrypt : String → Option String
  hmac : String → String → String
  sha256 : String → String
  base64 : String → List UInt8

/-- The headers and the body of a request; an absent header is `none`. -/
structure Input where
  agentId : Option String
  timestamp : Option String
  nonce : Option String
  signature : Option String
  method : String
  path : String
  body : String
  deriving DecidableEq

/-- The columns of `agent_identities` that `authenticate` reads. -/
structure AgentIdentity where
  agentId : String
  deviceId : String
  encryptedSecret : String
  revokedAt : Option Nat

/-- A row of `agent_request_nonces`; `expiresAt` holds whole seconds. -/
structure NonceRow where
  id : String
  agentId : String
  nonceHash : String
  expiresAt : Int

structure AuthenticatedAgent where
  agentId : String
  deviceId : String
  secret : String
  deriving DecidableEq

/-- What the environment answers at an `await`. -/
structure Answer where
  identity : Option AgentIdentity := none
  fails : Bool := false

/-- The header checks of `authenticate` treat an empty header as absent. -/
def header (value : Option String) : Option String :=
  value.filter (· ≠ "")

/-- `/^[A-Za-z0-9_-]{22,128}$/` -/
def nonceFormat (nonce : String) : Bool :=
  22 ≤ nonce.toList.length ∧ nonce.toList.length ≤ 128 ∧
    nonce.toList.all fun ch => ch.isAlphanum || ch = '_' || ch = '-'

variable (prim : Primitives) {rows : List NonceRow} {answer : Answer} {input : Input}
  {request : Request}

/-- `signAgentRequest` -/
def signAgentRequest (secret timestamp nonce method path body : String) : String :=
  prim.hmac secret
    ("\n".intercalate [timestamp, nonce, method.toUpper, path, prim.sha256 body])

/-- `verifyAgentSignature` -/
def verifyAgentSignature (expected actual : String) : Bool :=
  prim.base64 expected = prim.base64 actual

/-- The column value of `new Date(timestamp + AGENT_REQUEST_SKEW_MS)`. -/
def expiry (timestamp : Int) : Int :=
  (timestamp + requestSkewMs) / 1000

/-- A request whose headers are present and well formed. -/
structure Request where
  agentId : String
  timestamp : String
  nonce : String
  signature : String
  millis : Int
  deriving DecidableEq

/-- The statement a call waits for. `purgeNow` is the clock that `reserveNonce`
read for its purge. -/
inductive Loc where
  | findIdentity (input : Input) (request : Request)
  | purge (request : Request) (agent : AuthenticatedAgent) (nonceHash : String) (purgeNow : Nat)
  | insert (request : Request) (agent : AuthenticatedAgent) (nonceHash : String)
  deriving DecidableEq

inductive Ret where
  | accepted (agent : AuthenticatedAgent)
  | rejected
  deriving DecidableEq

/-- The part of `authenticate` before its first `await`, with the first reading of
the clock. -/
def parseRequest (clock : Nat) (input : Input) : Option Request := do
  let agentId ← header input.agentId
  let timestamp ← header input.timestamp
  let nonce ← header input.nonce
  let signature ← header input.signature
  guard (nonceFormat nonce)
  let millis ← prim.number timestamp
  guard (((clock : Int) - millis).natAbs ≤ requestSkewMs)
  return ⟨agentId, timestamp, nonce, signature, millis⟩

def enter (clock : Nat) (input : Input) : Phase Loc Ret :=
  match parseRequest prim clock input with
  | some request => .waiting (.findIdentity input request)
  | none => .returned .rejected

/-- The checks on the identity row, and the agent they authenticate. -/
def checkIdentity (input : Input) (request : Request) (identity : Option AgentIdentity) :
    Option AuthenticatedAgent := do
  let identity ← identity.filter (·.agentId = request.agentId)
  guard identity.revokedAt.isNone
  let secret ← prim.decrypt identity.encryptedSecret
  let expected := signAgentRequest prim secret request.timestamp request.nonce input.method
    input.path input.body
  guard (verifyAgentSignature prim expected request.signature)
  return ⟨identity.agentId, identity.deviceId, secret⟩

/-- The nonce row that a request reserves. -/
def nonceRow (request : Request) (agent : AuthenticatedAgent) (nonceHash : String) : NonceRow :=
  ⟨agent.agentId ++ ":" ++ nonceHash, agent.agentId, nonceHash, expiry request.millis⟩

/-- The primary key and the unique index of the nonce table. -/
def conflicts (row row' : NonceRow) : Bool :=
  row.id = row'.id || (row.agentId = row'.agentId && row.nonceHash = row'.nonceHash)

def resume (clock : Nat) (answer : Answer) (rows : List NonceRow) :
    Loc → List NonceRow × Phase Loc Ret
  | .findIdentity input request =>
    if answer.fails then (rows, .returned .rejected)
    else
      match checkIdentity prim input request answer.identity with
      | none => (rows, .returned .rejected)
      | some agent => (rows, .waiting (.purge request agent (prim.sha256 request.nonce) clock))
  | .purge request agent nonceHash purgeNow =>
    if answer.fails then (rows, .returned .rejected)
    else
      (rows.filter fun row => ¬ row.expiresAt < (purgeNow : Int) / 1000,
        .waiting (.insert request agent nonceHash))
  | .insert request agent nonceHash =>
    let row := nonceRow request agent nonceHash
    if answer.fails ∨ rows.any (conflicts row) then (rows, .returned .rejected)
    else (rows ++ [row], .returned (.accepted agent))

/-- `authenticate` as a program over the nonce table. -/
def authenticate : Program (List NonceRow) Input Answer Loc Ret where
  enter := enter prim
  resume := resume prim

abbrev State := Config (List NonceRow) Input Loc Ret

/-- No two calls with one agent, timestamp and nonce were both accepted. -/
def NoReplay (s : State) : Prop :=
  ∀ ⦃i j : Nat⦄ ⦃input input' : Input⦄ ⦃agent agent' : AuthenticatedAgent⦄,
    s.tasks[i]? = some ⟨input, .returned (.accepted agent)⟩ →
    s.tasks[j]? = some ⟨input', .returned (.accepted agent')⟩ →
    input.agentId = input'.agentId → input.timestamp = input'.timestamp →
    input.nonce = input'.nonce → i = j

/-- No nonce is inserted after the second in which its row expires. -/
def InsertsInTime (_ : Unit) (s : State) : Label Input Answer → Prop
  | .resume i _ =>
    match s.tasks[i]? with
    | some ⟨_, .waiting (.insert request _ _)⟩ =>
      (s.clock : Int) / 1000 ≤ expiry request.millis
    | _ => True
  | _ => True

instance (g : Unit) (s : State) (label : Label Input Answer) :
    Decidable (InsertsInTime g s label) := by
  unfold InsertsInTime
  split
  · split <;> infer_instance
  · infer_instance

/-! ## What a call relies on -/

/-- The request is the one the input's headers carry. -/
structure Coherent (input : Input) (request : Request) : Prop where
  agentId : header input.agentId = some request.agentId
  nonce : header input.nonce = some request.nonce
  millis : (header input.timestamp).bind prim.number = some request.millis

/-- An accepted call left its nonce row in the table, until the second in which
the row expires has passed. -/
def replayLocal (_ : Unit) (clock : Nat) (rows : List NonceRow) (_ : Nat) (input : Input) :
    Phase Loc Ret → Prop
  | .waiting (.findIdentity _ request) => Coherent prim input request
  | .waiting (.purge request agent nonceHash purgeNow) =>
    Coherent prim input request ∧ agent.agentId = request.agentId ∧
      nonceHash = prim.sha256 request.nonce ∧ purgeNow ≤ clock
  | .waiting (.insert request agent nonceHash) =>
    Coherent prim input request ∧ agent.agentId = request.agentId ∧
      nonceHash = prim.sha256 request.nonce
  | .returned (.accepted agent) =>
    ∃ request, Coherent prim input request ∧ agent.agentId = request.agentId ∧
      (nonceRow request agent (prim.sha256 request.nonce) ∈ rows ∨
        expiry request.millis < (clock : Int) / 1000)
  | _ => True

variable {prim}

theorem coherent_of_parse {clock : Nat} (h : parseRequest prim clock input = some request) :
    Coherent prim input request := by
  simp only [parseRequest, Option.bind_eq_bind, Option.bind_eq_some_iff] at h
  obtain ⟨agentId, hagent, timestamp, htime, nonce, hnonce, signature, -, -, -, millis, hmillis,
    -, -, hreq⟩ := h
  cases hreq
  exact ⟨hagent, hnonce, by rw [htime]; exact hmillis⟩

theorem agentId_of_check {identity : Option AgentIdentity} {agent : AuthenticatedAgent}
    (h : checkIdentity prim input request identity = some agent) :
    agent.agentId = request.agentId := by
  simp only [checkIdentity, Option.bind_eq_bind, Option.bind_eq_some_iff] at h
  obtain ⟨row, hrow, -, -, secret, -, -, -, hagent⟩ := h
  cases hagent
  rw [Option.filter_eq_some_iff] at hrow
  simpa using hrow.2

/-- Requests that agree on agent, timestamp and nonce reserve the same row. -/
theorem Coherent.same {input input' : Input} {request request' : Request}
    (h : Coherent prim input request) (h' : Coherent prim input' request')
    (hagent : input.agentId = input'.agentId) (htime : input.timestamp = input'.timestamp)
    (hnonce : input.nonce = input'.nonce) :
    request.agentId = request'.agentId ∧ request.millis = request'.millis ∧
      request.nonce = request'.nonce := by
  refine ⟨?_, ?_, ?_⟩
  · exact Option.some.inj (h.agentId.symm.trans (by rw [hagent]; exact h'.agentId))
  · exact Option.some.inj (h.millis.symm.trans (by rw [htime]; exact h'.millis))
  · exact Option.some.inj (h.nonce.symm.trans (by rw [hnonce]; exact h'.nonce))

theorem replayLocal_mono {clock clock' i : Nat} {ph : Phase Loc Ret} (hle : clock ≤ clock')
    (h : replayLocal prim () clock rows i input ph) :
    replayLocal prim () clock' rows i input ph := by
  match ph, h with
  | .waiting (.findIdentity _ _), h => exact h
  | .waiting (.purge _ _ _ _), ⟨hco, hagent, hhash, hnow⟩ =>
      exact ⟨hco, hagent, hhash, Nat.le_trans hnow hle⟩
  | .waiting (.insert _ _ _), h => exact h
  | .returned (.accepted _), ⟨request, hco, hagent, hrow⟩ =>
      exact ⟨request, hco, hagent, hrow.imp_right fun hlt => by omega⟩
  | .returned .rejected, _ => trivial
  | .lost, _ => trivial

/-- A statement keeps every row that has not expired by the clock. -/
theorem mem_resume {clock : Nat} {l : Loc}
    (hnow : ∀ {request agent nonceHash purgeNow}, l = .purge request agent nonceHash purgeNow →
      purgeNow ≤ clock) {row : NonceRow} (hrow : row ∈ rows) :
    row ∈ (resume prim clock answer rows l).1 ∨ row.expiresAt < (clock : Int) / 1000 := by
  cases l with
  | findIdentity input request =>
      left
      simp only [resume]
      (repeat' split) <;> exact hrow
  | purge request agent nonceHash purgeNow =>
      simp only [resume]
      split
      · exact .inl hrow
      · by_cases hexpired : row.expiresAt < (purgeNow : Int) / 1000
        · have hle := hnow rfl
          exact .inr (by omega)
        · exact .inl (List.mem_filter.mpr ⟨hrow, by simpa using hexpired⟩)
  | insert request agent nonceHash =>
      left
      simp only [resume]
      split
      · exact hrow
      · exact List.mem_append_left _ hrow

theorem replayLocal_of_resume {clock i j : Nat} {l : Loc} {input input' : Input}
    {ph : Phase Loc Ret} (hlocal : replayLocal prim () clock rows i input (.waiting l))
    (h : replayLocal prim () clock rows j input' ph) :
    replayLocal prim () clock (resume prim clock answer rows l).1 j input' ph := by
  match ph, h with
  | .waiting (.findIdentity _ _), h => exact h
  | .waiting (.purge _ _ _ _), h => exact h
  | .waiting (.insert _ _ _), h => exact h
  | .returned (.accepted _), ⟨request, hco, hagent, hrow⟩ =>
      refine ⟨request, hco, hagent, ?_⟩
      rcases hrow with hrow | hexpired
      · refine mem_resume ?_ hrow
        rintro request' agent' nonceHash' purgeNow rfl
        exact hlocal.2.2.2
      · exact .inr hexpired
  | .returned .rejected, _ => trivial
  | .lost, _ => trivial

theorem replayLocal_enter (clock i : Nat) (rows : List NonceRow) (input : Input) :
    replayLocal prim () clock rows i input (enter prim clock input) := by
  unfold enter
  split
  · rename_i request hparse
    exact coherent_of_parse hparse
  · trivial

theorem replayLocal_self {clock i : Nat} {l : Loc}
    (h : replayLocal prim () clock rows i input (.waiting l)) :
    replayLocal prim () clock (resume prim clock answer rows l).1 i input
      (resume prim clock answer rows l).2 := by
  cases l with
  | findIdentity input' request =>
      simp only [resume]
      split
      · trivial
      · split
        · trivial
        · rename_i agent hcheck
          exact ⟨h, agentId_of_check hcheck, rfl, Nat.le_refl _⟩
  | purge request agent nonceHash purgeNow =>
      simp only [resume]
      split
      · trivial
      · exact ⟨h.1, h.2.1, h.2.2.1⟩
  | insert request agent nonceHash =>
      obtain ⟨hco, hagent, rfl⟩ := h
      simp only [resume]
      split
      · trivial
      · exact ⟨request, hco, hagent, .inl (by simp)⟩

theorem replay_rely (prim : Primitives) :
    Rely (authenticate prim) (fun g _ _ => g) InsertsInTime (fun _ _ _ => True)
      (replayLocal prim) where
  tick := fun _ _ => ⟨trivial, fun h => replayLocal_mono (Nat.le_add_right _ _) h⟩
  call := fun _ _ => ⟨trivial, replayLocal_enter _ _ _ _, fun _ h => h⟩
  crash := by
    intro g s _ _
    refine ⟨trivial, ?_⟩
    intro i input ph h
    cases ph with
    | waiting l => trivial
    | returned r => exact h
    | lost => trivial
  idle := fun _ _ _ => ⟨trivial, fun h => h⟩
  resume := fun _ _ _ h => ⟨trivial, replayLocal_self h, fun _ _ h' => replayLocal_of_resume h h'⟩

/-- An insert that is in time finds the row of every accepted call with the same
agent, timestamp and nonce. -/
theorem insert_rejected {clock i j : Nat} {input input' : Input} {agent agent' : AuthenticatedAgent}
    {nonceHash : String} (hintime : (clock : Int) / 1000 ≤ expiry request.millis)
    (h : replayLocal prim () clock rows i input (.waiting (.insert request agent nonceHash)))
    (h' : replayLocal prim () clock rows j input' (.returned (.accepted agent')))
    (hagent : input.agentId = input'.agentId) (htime : input.timestamp = input'.timestamp)
    (hnonce : input.nonce = input'.nonce) :
    (resume prim clock answer rows (.insert request agent nonceHash)).2 = .returned .rejected := by
  obtain ⟨hco, hid, rfl⟩ := h
  obtain ⟨request', hco', hid', hrow⟩ := h'
  obtain ⟨hsameAgent, hsameMillis, hsameNonce⟩ := hco.same hco' hagent htime hnonce
  rcases hrow with hrow | hexpired
  · have hany : rows.any (conflicts (nonceRow request agent (prim.sha256 request.nonce))) := by
      refine List.any_eq_true.mpr ⟨_, hrow, ?_⟩
      simp [conflicts, nonceRow, hid, hid', hsameAgent, hsameNonce]
    simp [resume, hany]
  · rw [hsameMillis] at hintime
    omega

theorem noReplay_step {s : State} {label : Label Input Answer} (hok : InsertsInTime () s label)
    (hholds : Holds (fun _ _ _ => True) (replayLocal prim) () s) (h : NoReplay s) :
    NoReplay ((authenticate prim).step s label) := by
  cases label with
  | tick d => exact h
  | call input₀ =>
      -- A call that has only entered is never accepted.
      have hold : ∀ {i : Nat} {input agent},
          ((authenticate prim).step s (.call input₀)).tasks[i]? =
            some ⟨input, .returned (.accepted agent)⟩ →
          s.tasks[i]? = some ⟨input, .returned (.accepted agent)⟩ := by
        intro i input agent ht
        simp only [Program.step] at ht
        rcases Nat.lt_or_ge i s.tasks.length with hi | hi
        · rwa [List.getElem?_append_left hi] at ht
        · rw [List.getElem?_append_right hi] at ht
          have hmem := List.mem_of_getElem? ht
          simp only [List.mem_singleton, Task.mk.injEq] at hmem
          have henter : enter prim s.clock input₀ = .returned (.accepted agent) := hmem.2.symm
          unfold enter at henter
          split at henter <;> cases henter
      intro i j input input' agent agent' hi hj
      exact h (hold hi) (hold hj)
  | crash =>
      have hold : ∀ {i : Nat} {input agent},
          ((authenticate prim).step s .crash).tasks[i]? =
            some ⟨input, .returned (.accepted agent)⟩ →
          s.tasks[i]? = some ⟨input, .returned (.accepted agent)⟩ := by
        intro i input agent ht
        simp only [Program.step, List.getElem?_map, Option.map_eq_some_iff] at ht
        obtain ⟨⟨input₀, ph⟩, hold, heq⟩ := ht
        cases ph <;> simp [Task.crash] at heq
        rw [hold, heq.1, heq.2]
      intro i j input input' agent agent' hi hj
      exact h (hold hi) (hold hj)
  | resume i₀ answer =>
      rcases Program.step_resume_cases (authenticate prim) s i₀ answer with
        hidle | ⟨input₀, l, htask, hstep⟩
      · rw [hidle]
        exact h
      · have hlt := (List.getElem?_eq_some_iff.mp htask).1
        have hlocal := hholds.local_ htask
        -- The call that ran is accepted only if no earlier accepted call agrees with it.
        have hclash : ∀ {j : Nat} {input input' : Input} {agent agent' : AuthenticatedAgent},
            (⟨input₀, (resume prim s.clock answer s.shared l).2⟩ : Task Input Loc Ret) =
              ⟨input, .returned (.accepted agent)⟩ →
            s.tasks[j]? = some ⟨input', .returned (.accepted agent')⟩ →
            input.agentId = input'.agentId → input.timestamp = input'.timestamp →
            input.nonce = input'.nonce → False := by
          intro j input input' agent agent' heq hj hagent htime hnonce
          obtain ⟨rfl, hphase⟩ := Task.mk.inj heq
          cases l with
          | findIdentity => simp only [resume] at hphase; (repeat' split at hphase) <;> cases hphase
          | purge => simp only [resume] at hphase; split at hphase <;> cases hphase
          | insert request agent₀ nonceHash =>
              simp only [InsertsInTime, htask] at hok
              rw [insert_rejected hok hlocal (hholds.local_ hj) hagent htime hnonce] at hphase
              cases hphase
        intro i j input input' agent agent' hi hj hagent htime hnonce
        rw [hstep] at hi hj
        by_cases hii : i = i₀ <;> by_cases hji : j = i₀
        · rw [hii, hji]
        · subst hii
          rw [List.getElem?_set_ne (Ne.symm hji)] at hj
          simp only [List.getElem?_set_self hlt, Option.some.injEq] at hi
          exact (hclash hi hj hagent htime hnonce).elim
        · subst hji
          rw [List.getElem?_set_ne (Ne.symm hii)] at hi
          simp only [List.getElem?_set_self hlt, Option.some.injEq] at hj
          exact (hclash hj hi hagent.symm htime.symm hnonce.symm).elim
        · rw [List.getElem?_set_ne (Ne.symm hii)] at hi
          rw [List.getElem?_set_ne (Ne.symm hji)] at hj
          exact h hi hj hagent htime hnonce

/-- In every run in which no nonce is inserted after its row's last second, no
signed request is accepted twice. -/
theorem no_replay (prim : Primitives) (clock : Nat) (rows : List NonceRow)
    {ls : List (Label Input Answer)}
    (hmeets : (authenticate prim).Meets (fun g _ _ => g) InsertsInTime () ⟨clock, rows, []⟩ ls) :
    ∀ pre post, ls = pre ++ post → NoReplay ((authenticate prim).run ⟨clock, rows, []⟩ pre) := by
  rintro pre post rfl
  have hinit : Holds (fun _ _ _ => True) (replayLocal prim) () (⟨clock, rows, []⟩ : State) ∧
      NoReplay ⟨clock, rows, []⟩ := by
    refine ⟨⟨trivial, by simp⟩, ?_⟩
    intro i j input input' agent agent' hi
    simp at hi
  have hstep : ∀ g s label, InsertsInTime g s label →
      Holds (fun _ _ _ => True) (replayLocal prim) g s ∧ NoReplay s →
      Holds (fun _ _ _ => True) (replayLocal prim) g ((authenticate prim).step s label) ∧
        NoReplay ((authenticate prim).step s label) := by
    intro g s label hok hinv
    exact ⟨(replay_rely prim).holds_step g s label hok hinv.1, noReplay_step hok hinv.1 hinv.2⟩
  exact (hmeets.of_append.invariant hstep hinit).2

/-- Primitives for concrete requests: one known timestamp and one known signature. -/
def samplePrimitives : Primitives where
  number text := if text = "1000000" then some 1000000 else none
  decrypt text := some text
  hmac _ _ := "c2lnbmF0dXJl"
  sha256 text := text
  base64 text := text.toList.map fun ch => ch.toNat.toUInt8

def sampleRequest : Input where
  agentId := some "agent"
  timestamp := some "1000000"
  nonce := some "abcdefghijklmnopqrstuv"
  signature := some "c2lnbmF0dXJl"
  method := "POST"
  path := "/api/agent/poll"
  body := "\x7b\x7d"

/-- The answers that authenticate the sample request. -/
def sampleAnswer : Answer where
  identity := some ⟨"agent", "device", "secret", none⟩

/-- The sample request twice at once: the second insert finds the first one's row. -/
theorem no_replay_of_duplicate :
    NoReplay ((authenticate samplePrimitives).run ⟨1000000, [], []⟩
      [.call sampleRequest, .call sampleRequest, .resume 0 sampleAnswer, .resume 1 sampleAnswer,
        .resume 0 sampleAnswer, .resume 1 sampleAnswer, .resume 0 sampleAnswer,
        .resume 1 sampleAnswer]) :=
  no_replay samplePrimitives 1000000 [] (by decide) _ [] rfl

/-- The sample request is accepted; its copy passes the age check in the last
moment of the window and waits one second before its nonce is reserved. -/
def parkedReplay : List (Label Input Answer) :=
  [.call sampleRequest, .resume 0 sampleAnswer, .resume 0 sampleAnswer, .resume 0 sampleAnswer,
    .tick 300000, .call sampleRequest, .tick 1000, .resume 1 sampleAnswer,
    .resume 1 sampleAnswer, .resume 1 sampleAnswer]

/-- The parked copy is accepted a second time. -/
theorem parked_replay_accepted :
    ¬ NoReplay ((authenticate samplePrimitives).run ⟨1000000, [], []⟩ parkedReplay) := by
  intro h
  have heq : (0 : Nat) = 1 :=
    @h 0 1 sampleRequest sampleRequest ⟨"agent", "device", "secret"⟩ ⟨"agent", "device", "secret"⟩
      (by decide) (by decide) rfl rfl rfl
  exact absurd heq (by decide)

end Pluton.Agent.Replay
