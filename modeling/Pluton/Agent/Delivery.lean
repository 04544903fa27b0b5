-- SUMMARY: The agent's `runOnceWork` against the command queue: leases, events, completions.
import Pluton.Agent.Request
import Pluton.Run

/-!
# Delivery of completions

The agent (`agent/src/runtime.ts`) polls for a command, numbers the events of
each execution from 1 and completes with the next number; a completion is stored
before it is sent, and a command that comes back is answered with the stored one.
The server (`AgentService`, `AgentStore`) keeps `lastEventSequence` over all
attempts of a command.

A request is processed as a whole. Events and completions are messages in flight:
each is processed at some later time or never. The commands of the source access
service are settled by that service; here it may settle one at any time.
-/
namespace Pluton.Agent.Delivery

/-- `AGENT_COMMAND_LEASE_MS` -/
def leaseMs : Nat := 60 * 1000

/-- An entry of `completedCommands`. -/
structure Completion where
  commandId : String
  sequence : Nat
  success : Bool
  error : Option String
  deriving DecidableEq

inductive Message where
  | event (commandId leaseToken : String) (sequence : Nat)
  | complete (commandId leaseToken : String) (completion : Completion)
  deriving DecidableEq

def Message.leaseToken : Message → String
  | .event _ leaseToken _ => leaseToken
  | .complete _ leaseToken _ => leaseToken

/-- Where `runOnceWork` stands; `sequence` counts the events of the execution. -/
inductive Process where
  | idle
  | acknowledging (commandId leaseToken : String)
  | executing (commandId leaseToken : String) (sequence : Nat)
  deriving DecidableEq

/-- The server's table, the agent and the messages between them. `completed` is on
the agent's disk; `tokens` are the lease tokens that polls have drawn so far. -/
structure World where
  clock : Nat := 0
  commands : Commands := []
  process : Process := .idle
  completed : List Completion := []
  flight : List Message := []
  tokens : List String := []

/-- What can happen next. A poll that is not `received` is one whose answer never
reaches the agent; `prepared` is the outcome of `materializeCommand` or
`markDelivered`. -/
inductive Label where
  | tick (d : Nat)
  | enqueueCommand (id : String) (type : AgentCommandType) (createdAt : Nat)
  | cancelCommand (commandId : String)
  | settleSource (commandId : String) (success : Bool)
  | poll (leaseToken : String) (prepared received : Bool)
  | acknowledge
  | event
  | commandStatus (commandId leaseToken : String)
  | finish (success : Bool) (error : Option String)
  | deliver (i : Nat)
  | crash

/-- The types whose completions go to the source access service. -/
def sourceAccess (type : AgentCommandType) : Bool :=
  [AgentCommandType.sourceAccessValidate, .sourceAccessApply, .sourceAccessModeSetup].contains type

/-- `rememberCompletion` -/
def rememberCompletion (completed : List Completion) (completion : Completion) : List Completion :=
  let kept := completed.filter (fun item => item.commandId ≠ completion.commandId) ++ [completion]
  kept.drop (kept.length - 100)

namespace World

/-- Runs an operation of the store. -/
def request (w : World) (c : Call) : World :=
  { w with commands := (perform w.clock w.commands c).1 }

/-- The lease of a poll, under a token drawn for it. -/
def leaseNext (agentId : String) (w : World) (leaseToken : String) : World :=
  { w with
    commands := (perform w.clock w.commands (.leaseNext agentId leaseToken leaseMs)).1
    tokens := leaseToken :: w.tokens }

/-- `runOnceWork` after a poll has answered with a command. -/
def receive (w : World) (commandId leaseToken : String) : World :=
  match w.completed.find? fun item => item.commandId = commandId with
  | some prior => { w with flight := w.flight ++ [.complete commandId leaseToken prior] }
  | none => { w with process := .acknowledging commandId leaseToken }

/-- `AgentService.poll` after the lease, up to the agent's receipt of the answer. -/
def deliverPoll (agentId : String) (w : World) (command : AgentCommand) (leaseToken : String)
    (prepared received : Bool) : World :=
  let answer := if received then w.receive command.id leaseToken else w
  match command.type with
  | .ping | .inventoryRefresh => answer
  | .backupFilesystem =>
    if prepared then answer
    else
      w.request (.completeCommand agentId command.id leaseToken (command.lastEventSequence + 1)
        false (some "Remote backup command could not be prepared."))
  | .sourceAccessValidate | .sourceAccessApply | .sourceAccessModeSetup =>
    if prepared then answer else w

def poll (agentId : String) (w : World) (leaseToken : String) (prepared received : Bool) : World :=
  if received ∧ w.process ≠ .idle then w
  else
    match (perform w.clock w.commands (.leaseNext agentId leaseToken leaseMs)).2 with
    | some (.command (some command)) =>
      (w.leaseNext agentId leaseToken).deliverPoll agentId command leaseToken prepared received
    | _ => w.leaseNext agentId leaseToken

/-- The server processes a message. -/
def handle (agentId : String) (w : World) : Message → World
  | .event commandId leaseToken sequence =>
    w.request (.recordCommandEvent agentId commandId leaseToken sequence leaseMs)
  | .complete commandId leaseToken completion =>
    match getCommandForAgent w.commands agentId commandId with
    | some command =>
      if sourceAccess command.type then w
      else
        w.request (.completeCommand agentId commandId leaseToken completion.sequence
          completion.success completion.error)
    | none => w

/-- The end of an execution: the completion is stored, then sent. The first event
of an execution has been numbered by then. -/
def finish (w : World) (success : Bool) (error : Option String) : World :=
  match w.process with
  | .executing commandId leaseToken (sequence + 1) =>
    let completion : Completion := ⟨commandId, sequence + 2, success, error⟩
    { w with
      process := .idle
      completed := rememberCompletion w.completed completion
      flight := w.flight ++ [.complete commandId leaseToken completion] }
  | _ => w

/-- The source access service settles one of its commands. -/
def settleSource (w : World) (commandId : String) (success : Bool) : World :=
  { w with
    commands := Table.update w.commands
      (fun row => row.id = commandId ∧ sourceAccess row.type ∧ row.state.terminal = false)
      fun row => { row with state := if success then .completed else .failed } }

end World

/-- One step of the two parties. -/
def step (agentId : String) (w : World) : Label → World
  | .tick d => { w with clock := w.clock + d }
  | .enqueueCommand id type createdAt =>
    if w.commands.any (·.id = id) then w
    else { w with commands := w.commands ++ [{ id, agentId, type, createdAt }] }
  | .cancelCommand commandId => w.request (.cancelCommand commandId)
  | .settleSource commandId success => w.settleSource commandId success
  | .poll leaseToken prepared received => w.poll agentId leaseToken prepared received
  | .acknowledge =>
    match w.process with
    | .acknowledging commandId leaseToken =>
      let next := perform w.clock w.commands (.acknowledgeCommand agentId commandId leaseToken)
      match next.2 with
      | some (.command (some _)) =>
        { w with commands := next.1, process := .executing commandId leaseToken 0 }
      | _ => { w with commands := next.1, process := .idle }
    | _ => w
  | .event =>
    match w.process with
    | .executing commandId leaseToken sequence =>
      { w with
        process := .executing commandId leaseToken (sequence + 1)
        flight := w.flight ++ [.event commandId leaseToken (sequence + 1)] }
    | _ => w
  | .commandStatus commandId leaseToken =>
    w.request (.getCommandStatus agentId commandId leaseToken leaseMs)
  | .finish success error => w.finish success error
  | .deliver i =>
    match w.flight[i]? with
    | some message => { w with flight := w.flight.eraseIdx i }.handle agentId message
    | none => w
  | .crash => { w with process := .idle }

/-! ## The property and the condition -/

/-- A completion that is processed while its token owns the live lease of a
command that is not cancelled settles the command, or finds it settled. -/
def Accepted (agentId : String) (w : World) (label : Label) : Prop :=
  ∀ ⦃i commandId leaseToken completion row⦄, label = .deliver i →
    w.flight[i]? = some (.complete commandId leaseToken completion) →
    row ∈ w.commands → row.id = commandId → sourceAccess row.type = false →
    row.leaseOwner = some leaseToken → row.leaseAfter w.clock → row.state ≠ .cancelled →
    ∃ row', (perform w.clock w.commands (.completeCommand agentId commandId leaseToken
        completion.sequence completion.success completion.error)).2 = some (.command (some row')) ∧
      row' ∈ (step agentId w label).commands ∧ row'.id = commandId ∧
      (row'.state = .completed ∨ row'.state = .failed)

/-- Tokens are fresh, and an execution that ends has numbered at least as many
events as the server has kept for the command. -/
def Admitted (w : World) : Label → Prop
  | .poll leaseToken _ _ => leaseToken ∉ w.tokens
  | .finish _ _ =>
    match w.process with
    | .executing commandId _ sequence =>
      ∀ row ∈ w.commands, row.id = commandId → row.lastEventSequence ≤ sequence
    | _ => True
  | _ => True

instance (w : World) (label : Label) : Decidable (Admitted w label) := by
  unfold Admitted
  split
  · infer_instance
  · split <;> infer_instance
  · infer_instance

/-! ## The invariant -/

/-- A completion numbered `bound` stays new for the row whichever of the events in
flight under its owner are processed first. -/
def Below (flight : List Message) (row : AgentCommand) (bound : Nat) : Prop :=
  row.lastEventSequence < bound ∧
    ∀ leaseToken sequence, row.leaseOwner = some leaseToken →
      .event row.id leaseToken sequence ∈ flight → sequence < bound

/-- The agent works on the command under the token and has numbered `sequence`
events: it has no completion of the command, and no message is in flight under the
token, or under one that has replaced it, but these events. -/
structure Working (w : World) (commandId leaseToken : String) (sequence : Nat) : Prop where
  token : leaseToken ∈ w.tokens
  unfinished : ∀ completion ∈ w.completed, completion.commandId ≠ commandId
  own : ∀ message ∈ w.flight, message.leaseToken = leaseToken →
    ∃ k, k ≤ sequence ∧ message = .event commandId leaseToken k
  replaced : ∀ row ∈ w.commands, row.id = commandId → ∀ owner, row.leaseOwner = some owner →
    owner ≠ leaseToken → ∀ message ∈ w.flight, message.leaseToken ≠ owner

def ProcessInv (w : World) : Process → Prop
  | .idle => True
  | .acknowledging commandId leaseToken => Working w commandId leaseToken 0
  | .executing commandId leaseToken sequence => Working w commandId leaseToken sequence

structure Inv (agentId : String) (w : World) : Prop where
  keys : (w.commands.map (·.id)).Nodup
  agent : ∀ row ∈ w.commands, row.agentId = agentId
  owned : ∀ row ∈ w.commands, row.Owned
  owners : ∀ row ∈ w.commands, ∀ owner, row.leaseOwner = some owner → owner ∈ w.tokens
  sent : ∀ message ∈ w.flight, message.leaseToken ∈ w.tokens
  positive : ∀ completion ∈ w.completed, 0 < completion.sequence
  remembered : ∀ row ∈ w.commands, row.state.terminal = false → ∀ completion ∈ w.completed,
    completion.commandId = row.id → Below w.flight row completion.sequence
  flying : ∀ row ∈ w.commands, row.state.terminal = false → ∀ leaseToken completion,
    .complete row.id leaseToken completion ∈ w.flight → row.leaseOwner = some leaseToken →
    Below w.flight row completion.sequence
  process : ProcessInv w w.process

theorem ProcessInv.imp {w w' : World}
    (hworking : ∀ {commandId leaseToken sequence}, Working w commandId leaseToken sequence →
      Working w' commandId leaseToken sequence)
    {process : Process} (h : ProcessInv w process) : ProcessInv w' process := by
  cases process with
  | idle => trivial
  | acknowledging commandId leaseToken => exact hworking h
  | executing commandId leaseToken sequence => exact hworking h

/-- An operation of the store that brings a fresh token, if any, and records only
an event that was in flight. -/
structure Quiet (w w' : World) (c : Call) : Prop where
  rows : ∃ f, w'.commands = w.commands.map f ∧ ∀ row, Moves c row (f row)
  completed : w'.completed = w.completed
  flight : ∀ message ∈ w'.flight, message ∈ w.flight
  tokens : ∀ token ∈ w.tokens, token ∈ w'.tokens
  fresh : ∀ token, c.leaseOwner? = some token → token ∉ w.tokens ∧ token ∈ w'.tokens
  event : ∀ agentId commandId leaseToken sequence leaseMs,
    c = .recordCommandEvent agentId commandId leaseToken sequence leaseMs →
    .event commandId leaseToken sequence ∈ w.flight

section Quiet

variable {agentId : String} {w w' : World} {c : Call}

/-- A row that may still be completed with `bound` may so after the operation. -/
theorem Below.moves (hq : Quiet w w' c) (hsent : ∀ m ∈ w.flight, m.leaseToken ∈ w.tokens)
    {row row' : AgentCommand} (hmoves : Moves c row row') (hopen : row'.state.terminal = false)
    {bound : Nat} (h : Below w.flight row bound) : Below w'.flight row' bound := by
  constructor
  · rcases hmoves.sequence with hsame | hterminal | ⟨_, token, sequence, _, hc, howner, hseq⟩
    · exact hsame ▸ h.1
    · rw [hopen] at hterminal
      cases hterminal
    · exact hseq ▸ h.2 token sequence howner (hq.event _ _ _ _ _ hc)
  · intro leaseToken sequence howner hmem
    rw [hmoves.id] at hmem
    rcases hmoves.owner with hsame | hnone | ⟨token, hnew, htoken⟩
    · exact h.2 leaseToken sequence (hsame ▸ howner) (hq.flight _ hmem)
    · rw [hnone] at howner
      cases howner
    · -- nothing is in flight under a fresh token
      have heq : leaseToken = token := Option.some.inj (howner.symm.trans htoken)
      subst heq
      exact absurd (hsent _ (hq.flight _ hmem)) (hq.fresh _ hnew).1

theorem Working.moves (hq : Quiet w w' c) (hsent : ∀ m ∈ w.flight, m.leaseToken ∈ w.tokens)
    {commandId leaseToken : String} {sequence : Nat} (h : Working w commandId leaseToken sequence) :
    Working w' commandId leaseToken sequence where
  token := hq.tokens _ h.token
  unfinished := hq.completed ▸ h.unfinished
  own := fun message hmem => h.own message (hq.flight _ hmem)
  replaced := by
    intro row' hrow' hid owner howner hne message hmem
    obtain ⟨f, hrows, hmoves⟩ := hq.rows
    rw [hrows] at hrow'
    obtain ⟨row, hrow, rfl⟩ := List.mem_map.mp hrow'
    rcases (hmoves row).owner with hsame | hnone | ⟨token, hnew, htoken⟩
    · exact h.replaced row hrow ((hmoves row).id ▸ hid) owner (hsame ▸ howner) hne message
        (hq.flight _ hmem)
    · rw [hnone] at howner
      cases howner
    · have heq : owner = token := Option.some.inj (howner.symm.trans htoken)
      subst heq
      intro hmessage
      exact (hq.fresh _ hnew).1 (hmessage ▸ hsent _ (hq.flight _ hmem))

theorem Moves.open_of_open {row row' : AgentCommand} (h : Moves c row row')
    (hopen : row'.state.terminal = false) : row.state.terminal = false := by
  cases hterminal : row.state.terminal with
  | false => rfl
  | true =>
      have heq := h.final hterminal
      subst heq
      rw [hopen] at hterminal
      cases hterminal

theorem Inv.quiet (h : Inv agentId w) (hq : Quiet w w' c) (hprocess : w'.process = w.process) :
    Inv agentId w' := by
  obtain ⟨f, hrows, hmoves⟩ := hq.rows
  -- every row was there before, and moved
  have hold : ∀ {row'}, row' ∈ w'.commands → ∃ row ∈ w.commands, Moves c row row' := by
    intro row' hrow'
    rw [hrows] at hrow'
    obtain ⟨row, hrow, rfl⟩ := List.mem_map.mp hrow'
    exact ⟨row, hrow, hmoves row⟩
  constructor
  case keys =>
    have hids : w'.commands.map (·.id) = w.commands.map (·.id) := by
      rw [hrows, List.map_map]
      exact List.map_congr_left fun row _ => (hmoves row).id
    exact hids ▸ h.keys
  case agent =>
    intro row' hrow'
    obtain ⟨row, hrow, hm⟩ := hold hrow'
    exact hm.agentId.trans (h.agent row hrow)
  case owned =>
    intro row' hrow'
    obtain ⟨row, hrow, hm⟩ := hold hrow'
    exact hm.owned (h.owned row hrow)
  case owners =>
    intro row' hrow' owner howner
    obtain ⟨row, hrow, hm⟩ := hold hrow'
    rcases hm.owner with hsame | hnone | ⟨token, hnew, htoken⟩
    · exact hq.tokens _ (h.owners row hrow owner (hsame ▸ howner))
    · rw [hnone] at howner
      cases howner
    · have heq : owner = token := Option.some.inj (howner.symm.trans htoken)
      exact heq ▸ (hq.fresh token hnew).2
  case sent => exact fun message hmem => hq.tokens _ (h.sent message (hq.flight _ hmem))
  case positive => exact hq.completed ▸ h.positive
  case remembered =>
    intro row' hrow' hopen completion hcompletion hid
    obtain ⟨row, hrow, hm⟩ := hold hrow'
    rw [hq.completed] at hcompletion
    have hbelow := h.remembered row hrow (Moves.open_of_open hm hopen) completion hcompletion
      (hid.trans hm.id)
    exact hbelow.moves hq h.sent hm hopen
  case flying =>
    intro row' hrow' hopen leaseToken completion hmem howner
    obtain ⟨row, hrow, hm⟩ := hold hrow'
    rw [hm.id] at hmem
    rcases hm.owner with hsame | hnone | ⟨token, hnew, htoken⟩
    · have hbelow := h.flying row hrow (Moves.open_of_open hm hopen) leaseToken completion
        (hq.flight _ hmem) (hsame ▸ howner)
      exact hbelow.moves hq h.sent hm hopen
    · rw [hnone] at howner
      cases howner
    · have heq : leaseToken = token := Option.some.inj (howner.symm.trans htoken)
      subst heq
      exact absurd (h.sent _ (hq.flight _ hmem)) (hq.fresh _ hnew).1
  case process =>
    rw [hprocess]
    exact h.process.imp fun hworking => hworking.moves hq h.sent

end Quiet

/-! ## Steps -/

section Steps

variable {agentId : String} {w : World} {leaseToken : String}

/-- A request that brings no token and records no event. -/
theorem quiet_request (w : World) {c : Call} (howner : c.leaseOwner? = none)
    (hevent : ∀ agentId commandId leaseToken sequence leaseMs,
      c ≠ .recordCommandEvent agentId commandId leaseToken sequence leaseMs) :
    Quiet w (w.request c) c where
  rows := perform_rows _ _ _
  completed := rfl
  flight := fun _ h => h
  tokens := fun _ h => h
  fresh := by simp [howner]
  event := fun _ _ _ _ _ hc => (hevent _ _ _ _ _ hc).elim

theorem Inv.request (h : Inv agentId w) {c : Call} (howner : c.leaseOwner? = none)
    (hevent : ∀ agentId commandId leaseToken sequence leaseMs,
      c ≠ .recordCommandEvent agentId commandId leaseToken sequence leaseMs) :
    Inv agentId (w.request c) :=
  h.quiet (quiet_request w howner hevent) rfl

theorem Inv.enqueue (h : Inv agentId w) {id : String} {type : AgentCommandType} {createdAt : Nat}
    (hnew : (w.commands.any (·.id = id)) = false) :
    Inv agentId { w with commands := w.commands ++ [{ id, agentId, type, createdAt }] } := by
  have hcases : ∀ {row : AgentCommand},
      row ∈ w.commands ++ [({ id, agentId, type, createdAt } : AgentCommand)] →
      row ∈ w.commands ∨ row = { id, agentId, type, createdAt } := by
    intro row hrow
    simpa using hrow
  -- The new row has no owner, so what the invariant says about owners holds of it at once.
  constructor
  case keys =>
    simp only [List.map_append, List.map_cons, List.map_nil, List.nodup_append, h.keys, true_and]
    refine ⟨by simp, ?_⟩
    intro key hkey key' hkey' heq
    obtain ⟨row, hrow, rfl⟩ := List.mem_map.mp hkey
    simp only [List.mem_singleton] at hkey'
    have hany := List.any_eq_false.mp hnew row hrow
    simp [heq, hkey'] at hany
  case agent =>
    intro row hrow
    rcases hcases hrow with hrow | rfl
    · exact h.agent row hrow
    · rfl
  case owned =>
    intro row hrow
    rcases hcases hrow with hrow | rfl
    · exact h.owned row hrow
    · intro hsome
      exact absurd rfl hsome
  case owners =>
    intro row hrow owner howner
    rcases hcases hrow with hrow | rfl
    · exact h.owners row hrow owner howner
    · cases howner
  case sent => exact h.sent
  case positive => exact h.positive
  case remembered =>
    intro row hrow hopen completion hcompletion hid
    rcases hcases hrow with hrow | rfl
    · exact h.remembered row hrow hopen completion hcompletion hid
    · exact ⟨h.positive completion hcompletion, fun _ _ howner => by cases howner⟩
  case flying =>
    intro row hrow hopen leaseToken completion hmem howner
    rcases hcases hrow with hrow | rfl
    · exact h.flying row hrow hopen leaseToken completion hmem howner
    · cases howner
  case process =>
    refine h.process.imp fun hworking => ?_
    refine ⟨hworking.token, hworking.unfinished, hworking.own, ?_⟩
    intro row hrow hid owner howner
    rcases hcases hrow with hrow | rfl
    · exact hworking.replaced row hrow hid owner howner
    · cases howner

theorem Inv.stop (h : Inv agentId w) : Inv agentId { w with process := .idle } :=
  { h with process := trivial }

/-- A message of an idle agent: a completion that is new for its command. -/
theorem Inv.send (h : Inv agentId w) (hidle : w.process = .idle) {commandId leaseToken : String}
    {completion : Completion} (htoken : leaseToken ∈ w.tokens)
    (hbelow : ∀ row ∈ w.commands, row.state.terminal = false → row.id = commandId →
      row.leaseOwner = some leaseToken → Below w.flight row completion.sequence) :
    Inv agentId { w with flight := w.flight ++ [.complete commandId leaseToken completion] } := by
  -- the message is no event, so it adds nothing to what `Below` counts
  have hkeep : ∀ {row bound}, Below w.flight row bound →
      Below (w.flight ++ [.complete commandId leaseToken completion]) row bound := by
    intro row bound hb
    refine ⟨hb.1, fun token sequence howner hmem => hb.2 token sequence howner ?_⟩
    simpa using hmem
  refine { h with sent := ?_, remembered := ?_, flying := ?_, process := by rw [hidle]; trivial }
  · intro message hmem
    rcases List.mem_append.mp hmem with hmem | hmem
    · exact h.sent message hmem
    · simp only [List.mem_singleton] at hmem
      subst hmem
      exact htoken
  · intro row hrow hopen item hitem hid
    exact hkeep (h.remembered row hrow hopen item hitem hid)
  · intro row hrow hopen token item hmem howner
    rcases List.mem_append.mp hmem with hmem | hmem
    · exact hkeep (h.flying row hrow hopen token item hmem howner)
    · simp only [List.mem_singleton, Message.complete.injEq] at hmem
      obtain ⟨hid, rfl, rfl⟩ := hmem
      exact hkeep (hbelow row hrow hopen hid howner)

/-- The agent is given a command under a token that nothing was sent with yet. -/
theorem Inv.receive (h : Inv agentId w) (hidle : w.process = .idle) {row : AgentCommand}
    (hrow : row ∈ w.commands) (howner : row.leaseOwner = some leaseToken)
    (hunused : ∀ message ∈ w.flight, message.leaseToken ≠ leaseToken) :
    Inv agentId (w.receive row.id leaseToken) := by
  unfold World.receive
  split
  · rename_i prior hprior
    have hmem := List.mem_of_find?_eq_some hprior
    have hid : prior.commandId = row.id := by simpa using List.find?_some hprior
    refine h.send hidle (h.owners row hrow _ howner) ?_
    intro row' hrow' hopen hid' _
    exact h.remembered row' hrow' hopen prior hmem (hid.trans hid'.symm)
  · rename_i hnone
    refine { h with process := ?_ }
    refine ⟨h.owners row hrow _ howner, ?_, ?_, ?_⟩
    · intro completion hcompletion hid
      have hfound := List.find?_eq_none.mp hnone completion hcompletion
      simp [hid] at hfound
    · intro message hmem heq
      exact absurd heq (hunused message hmem)
    · intro row' hrow' hid owner howner' hne
      have hsame : row' = row := List.inj_on_of_nodup_map h.keys hrow' hrow hid
      subst hsame
      exact absurd (Option.some.inj (howner'.symm.trans howner)) hne

theorem Inv.leaseNext (h : Inv agentId w) (hfresh : leaseToken ∉ w.tokens) :
    Inv agentId (w.leaseNext agentId leaseToken) := by
  have hquiet : Quiet w (w.leaseNext agentId leaseToken)
      (.leaseNext agentId leaseToken leaseMs) :=
    { rows := perform_rows _ _ _
      completed := rfl
      flight := fun _ hm => hm
      tokens := fun _ ht => List.mem_cons_of_mem _ ht
      fresh := by
        intro token htoken
        cases htoken
        exact ⟨hfresh, List.mem_cons_self⟩
      event := fun _ _ _ _ _ hc => by cases hc }
  exact h.quiet hquiet rfl

theorem Inv.poll (h : Inv agentId w) (hfresh : leaseToken ∉ w.tokens) (prepared received : Bool) :
    Inv agentId (w.poll agentId leaseToken prepared received) := by
  have hleased := h.leaseNext hfresh
  unfold World.poll
  split
  · exact h
  · rename_i hready
    split
    · rename_i command hcommand
      obtain ⟨hmem, howner⟩ := perform_leaseNext hcommand
      have hunused : ∀ message ∈ w.flight, message.leaseToken ≠ leaseToken := by
        intro message hm heq
        exact hfresh (heq ▸ h.sent message hm)
      have hanswer : Inv agentId
          (if received then (w.leaseNext agentId leaseToken).receive command.id leaseToken
            else w.leaseNext agentId leaseToken) := by
        split
        · rename_i hreceived
          have hidle : w.process = .idle := by
            by_contra hbusy
            exact hready ⟨hreceived, hbusy⟩
          exact hleased.receive hidle hmem howner hunused
        · exact hleased
      unfold World.deliverPoll
      cases command.type with
      | ping => exact hanswer
      | inventoryRefresh => exact hanswer
      | backupFilesystem =>
          simp only
          split
          · exact hanswer
          · exact hleased.request rfl (by simp)
      | sourceAccessValidate => simp only; split <;> assumption
      | sourceAccessApply => simp only; split <;> assumption
      | sourceAccessModeSetup => simp only; split <;> assumption
    · exact hleased

theorem Inv.acknowledge (h : Inv agentId w) : Inv agentId (step agentId w .acknowledge) := by
  simp only [step]
  split
  · rename_i commandId leaseToken hprocess
    have hnext := h.request (c := .acknowledgeCommand agentId commandId leaseToken) rfl (by simp)
    have hworking := hnext.process
    simp only [World.request, hprocess] at hworking
    split
    · exact { hnext with process := { hworking with } }
    · exact hnext.stop
  · exact h

theorem Inv.event (h : Inv agentId w) : Inv agentId (step agentId w .event) := by
  simp only [step]
  split
  · rename_i commandId leaseToken sequence hprocess
    have hworking : Working w commandId leaseToken sequence := by
      have hp := h.process
      rwa [hprocess] at hp
    -- no completion of the command is remembered or in flight under the token, so the new
    -- event concerns no bound
    refine { h with sent := ?_, remembered := ?_, flying := ?_, process := ?_ }
    · intro message hmem
      rcases List.mem_append.mp hmem with hmem | hmem
      · exact h.sent message hmem
      · simp only [List.mem_singleton] at hmem
        subst hmem
        exact hworking.token
    · intro row hrow hopen completion hcompletion hid
      have hb := h.remembered row hrow hopen completion hcompletion hid
      refine ⟨hb.1, fun token k howner hmem => ?_⟩
      rcases List.mem_append.mp hmem with hmem | hmem
      · exact hb.2 token k howner hmem
      · simp only [List.mem_singleton, Message.event.injEq] at hmem
        exact absurd (hid.trans hmem.1) (hworking.unfinished completion hcompletion)
    · intro row hrow hopen token completion hmem howner
      have hmem : Message.complete row.id token completion ∈ w.flight := by simpa using hmem
      have hb := h.flying row hrow hopen token completion hmem howner
      refine ⟨hb.1, fun token' k howner' hmem' => ?_⟩
      rcases List.mem_append.mp hmem' with hmem' | hmem'
      · exact hb.2 token' k howner' hmem'
      · simp only [List.mem_singleton, Message.event.injEq] at hmem'
        have heq : token = leaseToken :=
          Option.some.inj ((howner.symm.trans howner').trans (congrArg some hmem'.2.1))
        obtain ⟨k', -, hcontra⟩ := hworking.own _ hmem heq
        cases hcontra
    · refine ⟨hworking.token, hworking.unfinished, ?_, ?_⟩
      · intro message hmem heq
        rcases List.mem_append.mp hmem with hmem | hmem
        · obtain ⟨k, hk, rfl⟩ := hworking.own message hmem heq
          exact ⟨k, Nat.le_succ_of_le hk, rfl⟩
        · simp only [List.mem_singleton] at hmem
          exact ⟨sequence + 1, Nat.le_refl _, hmem⟩
      · intro row hrow hid owner howner hne message hmem
        rcases List.mem_append.mp hmem with hmem | hmem
        · exact hworking.replaced row hrow hid owner howner hne message hmem
        · simp only [List.mem_singleton] at hmem
          subst hmem
          exact Ne.symm hne
  · exact h

theorem mem_rememberCompletion {completed : List Completion} {completion item : Completion}
    (h : item ∈ rememberCompletion completed completion) :
    item = completion ∨ item ∈ completed ∧ item.commandId ≠ completion.commandId := by
  have hmem := List.mem_of_mem_drop h
  simp only [List.mem_append, List.mem_filter, List.mem_singleton, decide_eq_true_eq] at hmem
  exact hmem.symm

/-- The end of an execution that has numbered enough events. -/
theorem Inv.finish (h : Inv agentId w) (success : Bool) (error : Option String)
    (hok : Admitted w (.finish success error)) : Inv agentId (w.finish success error) := by
  unfold World.finish
  split
  · rename_i commandId leaseToken sequence hprocess
    have hworking : Working w commandId leaseToken (sequence + 1) := by
      have hp := h.process
      rwa [hprocess] at hp
    have hlast : ∀ row ∈ w.commands, row.id = commandId →
        row.lastEventSequence ≤ sequence + 1 := by
      simpa only [Admitted, hprocess] using hok
    -- every event in flight under the owner of the command was numbered by this execution
    have hbelow : ∀ row ∈ w.commands, row.id = commandId → Below w.flight row (sequence + 2) := by
      intro row hrow hid
      refine ⟨Nat.lt_succ_of_le (hlast row hrow hid), fun owner k howner hmem => ?_⟩
      by_cases hown : owner = leaseToken
      · obtain ⟨k', hk', heq⟩ := hworking.own _ hmem hown
        simp only [Message.event.injEq] at heq
        rw [heq.2.2]
        exact Nat.lt_succ_of_le hk'
      · exact absurd rfl (hworking.replaced row hrow hid owner howner hown _ hmem)
    let completion : Completion := ⟨commandId, sequence + 2, success, error⟩
    have hstored : Inv agentId
        { w with process := .idle, completed := rememberCompletion w.completed completion } := by
      refine { h with positive := ?_, remembered := ?_, process := trivial }
      · intro item hitem
        rcases mem_rememberCompletion hitem with rfl | ⟨hitem, -⟩
        · exact Nat.succ_pos _
        · exact h.positive item hitem
      · intro row hrow hopen item hitem hid
        rcases mem_rememberCompletion hitem with rfl | ⟨hitem, -⟩
        · exact hbelow row hrow hid.symm
        · exact h.remembered row hrow hopen item hitem hid
    exact hstored.send rfl hworking.token fun row hrow _ hid _ => hbelow row hrow hid
  · exact h

theorem Inv.settleSource (h : Inv agentId w) (commandId : String) (success : Bool) :
    Inv agentId (w.settleSource commandId success) := by
  have hmoves : ∀ row : AgentCommand, Moves (.cancelCommand commandId) row
      (if row.id = commandId ∧ sourceAccess row.type ∧ row.state.terminal = false then
        { row with state := if success then .completed else .failed } else row) := by
    intro row
    split
    · rename_i hcond
      have hterminal : (if success then AgentCommandState.completed else .failed).terminal := by
        cases success <;> rfl
      refine ⟨rfl, rfl, rfl, ?_, fun _ _ => .inr hterminal, .inl rfl, .inl rfl⟩
      intro hfinal
      rw [hcond.2.2] at hfinal
      cases hfinal
    · exact Moves.refl _ _
  have hquiet : Quiet w (w.settleSource commandId success) (.cancelCommand commandId) :=
    { rows := ⟨_, rfl, by simpa using hmoves⟩
      completed := rfl
      flight := fun _ hm => hm
      tokens := fun _ ht => ht
      fresh := by simp [Call.leaseOwner?]
      event := fun _ _ _ _ _ hc => by cases hc }
  exact h.quiet hquiet rfl

theorem Inv.deliver (h : Inv agentId w) (i : Nat) : Inv agentId (step agentId w (.deliver i)) := by
  simp only [step]
  split
  · rename_i message hmessage
    have hsub : ∀ m ∈ w.flight.eraseIdx i, m ∈ w.flight := fun m => List.mem_of_mem_eraseIdx
    have hdropped : Inv agentId { w with flight := w.flight.eraseIdx i } :=
      h.quiet (c := .cancelCommand "")
        { rows := ⟨id, by simp, Moves.refl _⟩
          completed := rfl
          flight := hsub
          tokens := fun _ ht => ht
          fresh := by simp [Call.leaseOwner?]
          event := fun _ _ _ _ _ hc => by cases hc } rfl
    cases message with
    | event commandId leaseToken sequence =>
        have hquiet : Quiet w
            (World.handle agentId { w with flight := w.flight.eraseIdx i }
              (.event commandId leaseToken sequence))
            (.recordCommandEvent agentId commandId leaseToken sequence leaseMs) :=
          { rows := perform_rows _ _ _
            completed := rfl
            flight := hsub
            tokens := fun _ ht => ht
            fresh := by simp [Call.leaseOwner?]
            event := by
              intro _ _ _ _ _ hc
              cases hc
              exact List.mem_of_getElem? hmessage }
        exact h.quiet hquiet rfl
    | complete commandId leaseToken completion =>
        simp only [World.handle]
        split
        · split
          · exact hdropped
          · exact hdropped.request rfl (by simp)
        · exact hdropped
  · exact h

theorem inv_step (w : World) (label : Label) (hok : Admitted w label) (h : Inv agentId w) :
    Inv agentId (step agentId w label) := by
  cases label with
  | tick d =>
      have hworking : ∀ {commandId leaseToken sequence}, Working w commandId leaseToken sequence →
          Working { w with clock := w.clock + d } commandId leaseToken sequence :=
        fun hw => ⟨hw.token, hw.unfinished, hw.own, hw.replaced⟩
      exact { h with process := h.process.imp hworking }
  | enqueueCommand id type createdAt =>
      simp only [step]
      split
      · exact h
      · rename_i hnew
        exact h.enqueue (Bool.eq_false_iff.mpr hnew)
  | cancelCommand commandId => exact h.request rfl (by simp)
  | settleSource commandId success => exact h.settleSource commandId success
  | poll leaseToken prepared received => exact h.poll hok prepared received
  | acknowledge => exact h.acknowledge
  | event => exact h.event
  | commandStatus commandId leaseToken => exact h.request rfl (by simp)
  | finish success error => exact h.finish success error hok
  | deliver i => exact h.deliver i
  | crash => exact h.stop

theorem inv_start (agentId : String) : Inv agentId {} where
  keys := List.nodup_nil
  agent := by simp
  owned := by simp
  owners := by simp
  sent := by simp
  positive := by simp
  remembered := by simp
  flying := by simp
  process := trivial

theorem Inv.accepted (h : Inv agentId w) (label : Label) : Accepted agentId w label := by
  rintro i commandId leaseToken completion row rfl hflight hrow rfl htype howner hlive hcancelled
  have hagent := h.agent row hrow
  have hnew : row.state.terminal = false → row.lastEventSequence < completion.sequence := by
    intro hopen
    exact (h.flying row hrow hopen leaseToken completion (List.mem_of_getElem? hflight) howner).1
  obtain ⟨row', hreply, hmem, hid, hstate⟩ := perform_completeCommand h.keys hrow
    (h.owned row hrow) howner hlive hnew completion.success completion.error
  rw [hagent] at hreply hmem
  refine ⟨row', hreply, ?_, hid, ?_⟩
  · have hread := getCommandForAgent_eq h.keys hrow
    rw [hagent] at hread
    simpa [step, hflight, World.handle, hread, htype, World.request] using hmem
  · rcases hstate with hstate | hstate | ⟨-, hstate⟩
    · exact .inl hstate
    · exact .inr hstate
    · exact absurd hstate hcancelled

end Steps

/-- In every run in which each execution numbers at least as many events as the
server has kept for its command, every completion that is processed under the
command's live lease is accepted. -/
theorem completion_accepted (agentId : String) {ls : List Label}
    (hadmitted : Run.Along (step agentId) Admitted {} ls) :
    ∀ pre label post, ls = pre ++ label :: post →
      Accepted agentId (pre.foldl (step agentId) {}) label := by
  rintro pre label post rfl
  have hpre := (Run.along_append.mp hadmitted).1
  have hinv := hpre.invariant inv_step (inv_start agentId)
  exact hinv.accepted label

/-- An attempt that sends two events and is lost with its lease. -/
def lostAttempt : List Label :=
  [.enqueueCommand "command" .backupFilesystem 0, .poll "token-1" true true, .acknowledge, .event,
    .event, .deliver 0, .deliver 0, .crash, .tick leaseMs]

/-- The second attempt sends two events too, and completes with the third number. -/
def equalRetry : List Label :=
  lostAttempt ++ [.poll "token-2" true true, .acknowledge, .event, .event, .deliver 0,
    .finish true none]

theorem completion_accepted_of_equalRetry :
    Accepted "agent" (equalRetry.foldl (step "agent") {}) (.deliver 1) :=
  @completion_accepted "agent" (equalRetry ++ [.deliver 1]) (by decide) equalRetry (.deliver 1) []
    rfl

/-- The second attempt sends one event, and completes with the second number. -/
def shorterRetry : List Label :=
  lostAttempt ++ [.poll "token-2" true true, .acknowledge, .event, .deliver 0, .finish true none]

/-- The completion of the shorter attempt is refused under its own live lease. -/
theorem shorter_retry_refused :
    ¬ Accepted "agent" (shorterRetry.foldl (step "agent") {}) (.deliver 0) := by
  intro h
  have hrow : ∃ row ∈ (shorterRetry.foldl (step "agent") {}).commands, row.id = "command" ∧
      sourceAccess row.type = false ∧ row.leaseOwner = some "token-2" ∧
      row.leaseAfter (shorterRetry.foldl (step "agent") {}).clock ∧ row.state ≠ .cancelled := by
    decide
  obtain ⟨row, hmem, hid, htype, howner, hlive, hstate⟩ := hrow
  have hflight : (shorterRetry.foldl (step "agent") {}).flight[0]? =
      some (.complete "command" "token-2" ⟨"command", 2, true, none⟩) := by
    decide
  have hreply : (perform (shorterRetry.foldl (step "agent") {}).clock
      (shorterRetry.foldl (step "agent") {}).commands
      (.completeCommand "agent" "command" "token-2" 2 true none)).2 = some (.command none) := by
    decide
  obtain ⟨row', hsome, -⟩ := h rfl hflight hmem hid htype howner hlive hstate
  rw [hreply] at hsome
  cases hsome

end Pluton.Agent.Delivery
