-- SUMMARY: A backup is completed only when its command is, over every interleaving.
import Pluton.Agent.Leases
import Pluton.RemoteBackup.Completion

/-!
# Command and backup agree

`AgentStore.completeCommand` returns a settled command to any caller, and the
backup is then settled from that caller's own outcome. A command never leaves a
final state, so what a call was handed stays true while the call is parked; the
invariant is that a call on its way to record a success holds a command that
allows it. The only way in that the code leaves open is a success that is handed
a failed command before the failure has reached the backup.
-/
namespace Pluton.RemoteBackup

open Await Agent

abbrev State := Config Server Call Loc Ret
abbrev Labels := List (Label Call Answer)

/-- The backup is the one that the command reports on. -/
def Settles (command : AgentCommand) (backup : Backup) : Prop :=
  command.type = .backupFilesystem ∧
    ∃ reference, commandReference command.payload = some reference ∧
      backup.id = reference.backupId

/-- Some completion of the command reported a success with a lifecycle result. -/
def LifecycleReported (ls : Labels) (commandId : String) : Prop :=
  ∃ agentId completion, Label.call (.complete agentId commandId (some completion)) ∈ ls ∧
    completion.lifecycleSuccess

/-- The command allows its backup to be completed: it is completed itself, or it
was cancelled while a success with a lifecycle result was under way. -/
def Allows (ls : Labels) (command : AgentCommand) : Prop :=
  command.state = .completed ∨
    command.state = .cancelled ∧ LifecycleReported ls command.id

/-- Every completed backup has a command that allows it. -/
def Agree (ls : Labels) (s : Server) : Prop :=
  ∀ ⦃command backup⦄, command ∈ s.commands → backup ∈ s.backups → Settles command backup →
    backup.status = some .completed → Allows ls command

/-- A success that was handed a failed command finds the backup settled already. -/
def FailureRecorded (_ : Labels) (s : State) : Label Call Answer → Prop
  | .resume i _ =>
    match s.tasks[i]? with
    | some ⟨_, .waiting (.currentRead command reference completion)⟩ =>
      command.state = .failed → completion.success →
        alreadySettled (s.shared.getById reference.backupId) completion
    | _ => True
  | _ => True

instance (g : Labels) (s : State) (label : Label Call Answer) :
    Decidable (FailureRecorded g s label) := by
  unfold FailureRecorded
  split
  · split <;> infer_instance
  · infer_instance

/-! ## The invariant -/

/-- What holds of the tables. A command is named after the backup it reports on. -/
structure Shared (g : Labels) (s : Server) : Prop where
  keys : (s.commands.map (·.id)).Nodup
  named : ∀ ⦃command reference⦄, command ∈ s.commands → command.type = .backupFilesystem →
    commandReference command.payload = some reference →
    command.id = "remote-backup-" ++ reference.backupId
  agree : Agree g s

/-- The call was handed this settled command for its completion. -/
structure Handed (s : Server) (c : Call) (command : AgentCommand) (reference : CommandReference)
    (completion : Completion) : Prop where
  call : ∃ agentId, c = .complete agentId command.id (some completion)
  mem : command ∈ s.commands
  terminal : command.state.terminal
  type : command.type = .backupFilesystem
  reference : commandReference command.payload = some reference

/-- The call may record its success on the backup. -/
structure Cleared (s : Server) (c : Call) (command : AgentCommand) (reference : CommandReference)
    (completion : Completion) : Prop extends Handed s c command reference completion where
  allowed : command.state = .completed ∨
    command.state = .cancelled ∧ completion.lifecycleSuccess

/-- What a call that waits relies on. -/
def Justified (s : Server) (c : Call) : Loc → Prop
  | .existingRead agentId commandId input => c = .complete agentId commandId input
  | .diagnosticsRead agentId commandId completion =>
    c = .complete agentId commandId (some completion)
  | .inStore l (.settle completion) =>
    ∃ agentId commandId leaseToken sequence success error,
      c = .complete agentId commandId (some completion) ∧
      l.call = .completeCommand agentId commandId leaseToken sequence success error
  | .currentRead command reference completion => Handed s c command reference completion
  | .planRead command reference completion _ => Cleared s c command reference completion
  | .completeFinalized command reference completion => Cleared s c command reference completion
  | .completePlan command reference completion => Cleared s c command reference completion
  | .completeUpdate command reference completion => Cleared s c command reference completion
  | _ => True

def PhaseJustified (s : Server) (c : Call) (ph : Phase Loc Ret) : Prop :=
  ∀ l, ph = .waiting l → Justified s c l

def Relies (g : Labels) (_ : Nat) (s : Server) (_ : Nat) (c : Call) (ph : Phase Loc Ret) : Prop :=
  .call c ∈ g ∧ PhaseJustified s c ph

/-! ## Frame lemmas -/

variable {command : AgentCommand} {reference : CommandReference} {completion : Completion}
  {g : Labels}

theorem Allows.mono {g g' : Labels} (hsub : ∀ l ∈ g, l ∈ g') (h : Allows g command) :
    Allows g' command := by
  rcases h with h | ⟨h, agentId, completion, hcall, hsuccess⟩
  · exact .inl h
  · exact .inr ⟨h, agentId, completion, hsub _ hcall, hsuccess⟩

variable {s : Server}

theorem Shared.mono {g g' : Labels} (hsub : ∀ l ∈ g, l ∈ g') (h : Shared g s) :
    Shared g' s where
  keys := h.keys
  named := h.named
  agree := fun _ _ hcommand hbackup hsettles hcompleted =>
    (h.agree hcommand hbackup hsettles hcompleted).mono hsub

/-- Every settled command of `s` stands unchanged in `s'`. -/
def KeepsSettled (s s' : Server) : Prop :=
  ∀ ⦃command⦄, command ∈ s.commands → command.state.terminal → command ∈ s'.commands

variable {c : Call}

theorem Handed.keep {s s' : Server} (hkeep : KeepsSettled s s')
    (h : Handed s c command reference completion) :
    Handed s' c command reference completion :=
  { h with mem := hkeep h.mem h.terminal }

theorem Cleared.keep {s s' : Server} (hkeep : KeepsSettled s s')
    (h : Cleared s c command reference completion) :
    Cleared s' c command reference completion :=
  { h.toHanded.keep hkeep with allowed := h.allowed }

theorem Justified.keep {s s' : Server} (hkeep : KeepsSettled s s') {l : Loc} (h : Justified s c l) :
    Justified s' c l := by
  cases l with
  | currentRead => exact Handed.keep hkeep h
  | planRead => exact Cleared.keep hkeep h
  | completeFinalized => exact Cleared.keep hkeep h
  | completePlan => exact Cleared.keep hkeep h
  | completeUpdate => exact Cleared.keep hkeep h
  | inStore l after => cases after <;> exact h
  | _ => exact h

theorem Relies.mono {g g' : Labels} (hsub : ∀ l ∈ g, l ∈ g') {s s' : Server}
    (hkeep : KeepsSettled s s') {t t' i : Nat} {ph : Phase Loc Ret} (h : Relies g t s i c ph) :
    Relies g' t' s' i c ph :=
  ⟨hsub _ h.1, fun l hl => (h.2 l hl).keep hkeep⟩

theorem keepsSettled_store (s : Server) (l : Agent.Loc) :
    KeepsSettled s { s with commands := s.commands.map l.apply } := by
  intro command hmem hterminal
  exact List.mem_map.mpr ⟨command, hmem, Loc.apply_of_terminal hterminal⟩

/-- A statement of the store keeps the tables in agreement: it never touches a
command that a completed backup relies on. -/
theorem Shared.store (h : Shared g s) (l : Agent.Loc) :
    Shared g { s with commands := s.commands.map l.apply } where
  keys := keys_apply l h.keys
  named := by
    intro command reference hmem htype hreference
    obtain ⟨old, hold, rfl⟩ := List.mem_map.mp hmem
    rw [(l.apply_payload old).1] at htype
    rw [(l.apply_payload old).2] at hreference
    rw [(l.apply_key old).1]
    exact h.named hold htype hreference
  agree := by
    intro command backup hmem hbackup hsettles hcompleted
    obtain ⟨old, hold, rfl⟩ := List.mem_map.mp hmem
    have hsettlesOld : Settles old backup := by
      obtain ⟨htype, reference, hreference, hid⟩ := hsettles
      exact ⟨(l.apply_payload old).1 ▸ htype, reference, (l.apply_payload old).2 ▸ hreference, hid⟩
    have hallows := h.agree hold hbackup hsettlesOld hcompleted
    have hterminal : old.state.terminal := by
      rcases hallows with hstate | ⟨hstate, -⟩ <;> simp [hstate, AgentCommandState.terminal]
    rw [Loc.apply_of_terminal hterminal]
    exact hallows

/-- An update of a backup keeps the tables in agreement when it does not complete
the backup, or when every command of that backup allows it. -/
theorem Shared.updateBackup (h : Shared g s) {backupId : String} {set : Backup → Backup}
    (hid : ∀ backup, (set backup).id = backup.id)
    (hset : ∀ backup, (set backup).status = some .completed → backup.status = some .completed ∨
      ∀ ⦃command⦄, command ∈ s.commands → Settles command backup → backup.id = backupId →
        Allows g command) :
    Shared g (s.updateBackup backupId set) where
  keys := h.keys
  named := h.named
  agree := by
    intro command backup hmem hbackup hsettles hcompleted
    obtain ⟨old, hold, hset'⟩ := List.mem_map.mp hbackup
    split at hset'
    · rename_i hold_id
      subst hset'
      have hsettlesOld : Settles command old := by
        obtain ⟨htype, reference, hreference, hid'⟩ := hsettles
        exact ⟨htype, reference, hreference, (hid old).symm.trans hid'⟩
      rcases hset old hcompleted with hstatus | hallows
      · exact h.agree hmem hold hsettlesOld hstatus
      · exact hallows hmem hsettlesOld (of_decide_eq_true hold_id)
    · subst hset'
      exact h.agree hmem hold hsettles hcompleted

/-! ## Resumptions -/

/-- A row that `completeCommand` returns is settled and stands in the table. -/
theorem completeCommand_returns {clock : Nat} {e : Unit} {rows : Commands} {l : Agent.Loc}
    {agentId commandId leaseToken : String} {sequence : Nat} {success : Bool}
    {error : Option String} {row : AgentCommand}
    (hcall : l.call = .completeCommand agentId commandId leaseToken sequence success error)
    (h : (Agent.resume clock e rows l).2 = .returned (.command (some row))) :
    row ∈ (Agent.resume clock e rows l).1 ∧ row.id = commandId ∧ row.state.terminal := by
  cases l <;> simp only [Loc.call, Agent.Call.completeCommand.injEq, reduceCtorEq] at hcall
  case completeRead =>
    obtain ⟨-, rfl, -⟩ := hcall
    simp only [Agent.resume] at h ⊢
    split at h
    · cases h
    · rename_i existing hexisting
      have hmem := List.mem_of_find?_eq_some hexisting
      have hfound := List.find?_some hexisting
      simp only [Bool.decide_and, Bool.and_eq_true, decide_eq_true_eq] at hfound
      split at h
      · rename_i hterminal
        cases h
        simp [hterminal, hmem, hfound.1]
      · (repeat' split at h) <;> cases h
  case completeUpdate agentId' commandId' leaseToken' sequence' success' error' now at_ =>
    obtain ⟨-, rfl, -⟩ := hcall
    simp only [Agent.resume, Phase.returned.injEq, Agent.Ret.command.injEq] at h ⊢
    obtain ⟨old, hold, hcond, rfl⟩ := Table.mem_returning.mp (List.mem_of_mem_head? h)
    have hid : old.id = commandId' := by
      simp only [sequenceCond, leaseHeld, Bool.decide_and, Bool.and_eq_true,
        decide_eq_true_eq] at hcond
      exact hcond.1.1
    refine ⟨List.mem_map.mpr ⟨old, hold, by simp [hcond]⟩, hid, ?_⟩
    cases success' <;> simp [Agent.completeSet, AgentCommandState.terminal]

theorem justified_afterComplete (s : Server) (c : Call) (reference : CommandReference)
    (completion : Completion) : PhaseJustified s c (afterComplete reference completion) := by
  intro l hl
  unfold afterComplete at hl
  split at hl
  · cases hl
    trivial
  · cases hl

theorem justified_completeAgentCommand (s : Server) (clock : Nat) (agentId commandId : String)
    (completion : Completion) :
    PhaseJustified s (.complete agentId commandId (some completion))
      (completeAgentCommand clock agentId commandId completion) := by
  intro l hl
  simp only [completeAgentCommand, After.lift, Agent.enter] at hl
  cases hl
  exact ⟨_, _, _, _, _, _, rfl, rfl⟩

/-- The check that the code makes on the backup clears a success, unless the
command it was handed has failed. -/
theorem justified_settleCurrent (h : Handed s c command reference completion)
    {current : Option Backup}
    (hfailed : command.state = .failed → completion.success →
      alreadySettled current completion) :
    PhaseJustified s c (settleCurrent command reference completion current) := by
  intro l hl
  unfold settleCurrent at hl
  split at hl
  · cases hl
  · rename_i hunsettled
    split at hl
    · cases hl
      trivial
    · rename_i hcancelled
      split at hl
      · cases hl
        trivial
      · rename_i hsuccess
        simp only [Bool.not_eq_false] at hsuccess
        -- a success: the command it was handed is completed, or cancelled with a lifecycle result
        have hallowed : command.state = .completed ∨
            command.state = .cancelled ∧ completion.lifecycleSuccess := by
          have hterminal := h.terminal
          cases hstate : command.state <;> simp [hstate, AgentCommandState.terminal] at hterminal
          case completed => exact .inl rfl
          case failed => exact absurd (hfailed hstate hsuccess) hunsettled
          case cancelled => exact .inr ⟨rfl, by simpa [hstate] using hcancelled⟩
        split at hl
        · split at hl
          · cases hl
            exact { h with allowed := hallowed }
          · cases hl
            trivial
        · cases hl
          trivial

/-- A call that leaves the store for the backup was handed a settled command. -/
theorem justified_lift {s s' : Server} {clock : Nat} {l : Agent.Loc} {after : After}
    (h : Justified s c (.inStore l after))
    (hs' : s'.commands = (Agent.resume clock () s.commands l).1) :
    PhaseJustified s' c (after.lift (Agent.resume clock () s.commands l).2) := by
  intro l' hl'
  cases hnext : (Agent.resume clock () s.commands l).2 with
  | lost => simp [hnext, After.lift] at hl'
  | waiting next =>
      simp only [hnext, After.lift, Phase.waiting.injEq] at hl'
      subst hl'
      cases after with
      | settle completion =>
          obtain ⟨agentId, commandId, leaseToken, sequence, success, error, hc, hcall⟩ := h
          exact ⟨_, _, _, _, _, _, hc, (resume_call hnext).1.trans hcall⟩
      | cancelled backupId => trivial
      | done => trivial
  | returned r =>
      simp only [hnext, After.lift] at hl'
      unfold After.proceed at hl'
      split at hl'
      · rename_i completion command
        obtain ⟨agentId, commandId, leaseToken, sequence, success, error, hc, hcall⟩ := h
        obtain ⟨hmem, hid, hterminal⟩ := completeCommand_returns hcall hnext
        split at hl'
        · cases hl'
        · unfold settleBackup at hl'
          split at hl'
          · cases hl'
          · rename_i htype
            simp only [ne_eq, Decidable.not_not] at htype
            split at hl'
            · rename_i reference hreference
              cases hl'
              exact ⟨⟨agentId, hid ▸ hc⟩, hs' ▸ hmem, hterminal, htype, hreference⟩
            · cases hl'
      · cases hl'
      · cases hl'
        trivial
      · cases hl'

/-- A failing statement leaves the call with nothing to justify. -/
theorem justified_thrown (s : Server) (c : Call) (l : Loc) : PhaseJustified s c l.thrown := by
  cases l with
  | completeFinalized _ reference completion => exact justified_afterComplete s c _ _
  | completePlan _ reference completion => exact justified_afterComplete s c _ _
  | completeUpdate _ reference completion => exact justified_afterComplete s c _ _
  | _ => intro l' hl'; cases hl'

/-- What one resumption owes to the call itself and to the others. -/
structure Sound (g : Labels) (s : Server) (c : Call) (next : Server × Phase Loc Ret) : Prop where
  shared : Shared g next.1
  justified : PhaseJustified next.1 c next.2
  keeps : KeepsSettled s next.1

theorem Shared.read (h : Shared g s) {ph : Phase Loc Ret} (hph : PhaseJustified s c ph) :
    Sound g s c (s, ph) :=
  ⟨h, hph, fun _ hmem _ => hmem⟩

theorem phaseJustified_returned (s : Server) (c : Call) (r : Ret) :
    PhaseJustified s c (.returned r) := by
  intro l hl
  cases hl

theorem phaseJustified_waiting {l : Loc} (h : Justified s c l) :
    PhaseJustified s c (.waiting l) := by
  intro l' hl'
  cases hl'
  exact h

/-- A statement that updates a backup without completing it. -/
theorem Shared.write (h : Shared g s) {backupId : String} {set : Backup → Backup}
    (hid : ∀ backup, (set backup).id = backup.id)
    (hset : ∀ backup, (set backup).status = some .completed → backup.status = some .completed) :
    Sound g s c (s.updateBackup backupId set, .returned .done) :=
  ⟨h.updateBackup hid fun backup hstatus => .inl (hset backup hstatus),
    phaseJustified_returned _ _ _, fun _ hmem _ => hmem⟩

/-- The success of a cleared call may be recorded: by its name, no other command
reports on the same backup. -/
theorem Shared.complete (h : Shared g s) (hcall : .call c ∈ g)
    (hcleared : Cleared s c command reference completion) :
    Shared g (s.updateBackup reference.backupId completeSet) := by
  refine h.updateBackup (fun _ => rfl) ?_
  intro backup _
  refine .inr ?_
  intro command' hmem' hsettles hid
  obtain ⟨htype', reference', hreference', hid'⟩ := hsettles
  have hnames : command'.id = command.id := by
    rw [h.named hmem' htype' hreference', h.named hcleared.mem hcleared.type hcleared.reference,
      ← hid', hid]
  have hsame : command' = command := List.inj_on_of_nodup_map h.keys hmem' hcleared.mem hnames
  subst hsame
  obtain ⟨agentId, rfl⟩ := hcleared.call
  rcases hcleared.allowed with hstate | ⟨hstate, hlifecycle⟩
  · exact .inl hstate
  · exact .inr ⟨hstate, agentId, completion, hcall, hlifecycle⟩

theorem statement_sound {l : Loc} (clock : Nat) (e : Answer) (h : Shared g s) (hcall : .call c ∈ g)
    (hl : Justified s c l)
    (hrecorded : ∀ command reference completion, l = .currentRead command reference completion →
      command.state = .failed → completion.success →
        alreadySettled (s.getById reference.backupId) completion) :
    Sound g s c (l.statement clock e s) := by
  cases l with
  | existingRead agentId commandId input =>
      obtain rfl := hl
      simp only [Loc.statement]
      split
      -- every command but those about source access is completed here
      case h_4 =>
        split
        · exact h.read (phaseJustified_returned _ _ _)
        · split
          · exact h.read (phaseJustified_returned _ _ _)
          · split
            · exact h.read (phaseJustified_waiting rfl)
            · exact h.read (justified_completeAgentCommand _ _ _ _ _)
      all_goals exact h.read (phaseJustified_returned _ _ _)
  | diagnosticsRead agentId commandId completion =>
      obtain rfl := hl
      simp only [Loc.statement]
      split
      · exact h.read (phaseJustified_returned _ _ _)
      · exact h.read (justified_completeAgentCommand _ _ _ _ _)
  | inStore l after =>
      have hrows := resume_rows clock () s.commands l
      refine ⟨?_, justified_lift hl rfl, ?_⟩
      · simp only [Loc.statement, hrows]
        exact h.store l
      · simp only [Loc.statement, hrows]
        exact keepsSettled_store s l
  | currentRead command reference completion =>
      exact h.read (justified_settleCurrent hl (hrecorded _ _ _ rfl))
  | planRead command reference completion result =>
      simp only [Loc.statement]
      split
      · exact h.read (phaseJustified_waiting trivial)
      · exact h.read (phaseJustified_waiting hl)
  | completeFinalized command reference completion =>
      simp only [Loc.statement]
      split
      · exact h.read (justified_afterComplete _ _ _ _)
      · exact h.read (phaseJustified_waiting hl)
  | completePlan command reference completion => exact h.read (phaseJustified_waiting hl)
  -- the one statement that writes a completed backup
  | completeUpdate command reference completion =>
      exact ⟨h.complete hcall hl, justified_afterComplete _ _ _ _, fun _ hmem _ => hmem⟩
  | warningsUpdate backupId warnings => exact h.write (fun _ => rfl) fun _ hstatus => hstatus
  | failureFinalized backupId error sourceFailure =>
      simp only [Loc.statement]
      split
      · exact h.read (phaseJustified_returned _ _ _)
      · exact h.read (phaseJustified_waiting trivial)
  | failureCancelled backupId error sourceFailure =>
      simp only [Loc.statement]
      split
      · exact h.read (phaseJustified_returned _ _ _)
      · split <;> exact h.read (phaseJustified_waiting trivial)
  | failureCurrent backupId error => exact h.read (phaseJustified_waiting trivial)
  | failureUpdate backupId error =>
      exact h.write (fun _ => rfl) fun _ hstatus => by simp [failureSet] at hstatus
  | cancelledUpdate backupId =>
      exact h.write (fun _ => rfl) fun _ hstatus => by simp [cancelledSet] at hstatus
  | cancelRead planId backupId => exact h.read (phaseJustified_waiting trivial)
  | cancelRepository planId backupId backup =>
      simp only [Loc.statement]
      split
      · exact h.read (phaseJustified_returned _ _ _)
      · split
        · exact h.read (phaseJustified_returned _ _ _)
        · split
          · exact h.read (phaseJustified_returned _ _ _)
          · exact h.read (phaseJustified_waiting trivial)

theorem enter_justified (clock : Nat) (s : Server) (c : Call) :
    PhaseJustified s c (enter clock c) := by
  cases c with
  | complete agentId commandId input => exact phaseJustified_waiting rfl
  | cancelBackup planId backupId => exact phaseJustified_waiting trivial
  | store call =>
      intro l hl
      obtain ⟨l', henter, -⟩ := enter_call clock call
      simp only [enter, henter, After.lift, Phase.waiting.injEq] at hl
      subst hl
      trivial

/-! ## Runs -/

theorem agree_rely :
    Rely service Program.labels FailureRecorded (fun g _ s => Shared g s) Relies where
  tick := by
    intro g s d _ hshared
    have hsub : ∀ l ∈ g, l ∈ Program.labels g s (.tick d) := fun l => List.mem_append_left _
    exact ⟨hshared.mono hsub, fun h => h.mono hsub fun _ hmem _ => hmem⟩
  call := by
    intro g s c _ hshared
    have hsub : ∀ l ∈ g, l ∈ Program.labels g s (.call c) := fun l => List.mem_append_left _
    refine ⟨hshared.mono hsub, ⟨?_, enter_justified _ _ _⟩, fun _ h => ?_⟩
    · exact List.mem_append_right _ List.mem_cons_self
    · exact h.mono hsub fun _ hmem _ => hmem
  crash := by
    intro g s _ hshared
    have hsub : ∀ l ∈ g, l ∈ Program.labels g s .crash := fun l => List.mem_append_left _
    refine ⟨hshared.mono hsub, ?_⟩
    intro i c ph h
    refine ⟨hsub _ h.1, ?_⟩
    intro l hl
    cases ph <;> simp [Task.crash] at hl
  idle := by
    intro g s i e _ _ hshared
    have hsub : ∀ l ∈ g, l ∈ Program.labels g s (.resume i e) := fun l => List.mem_append_left _
    exact ⟨hshared.mono hsub, fun h => h.mono hsub fun _ hmem _ => hmem⟩
  resume := by
    intro g s i e c l htask hok hshared hrelies
    have hsub : ∀ l ∈ g, l ∈ Program.labels g s (.resume i e) := fun l => List.mem_append_left _
    have hrecorded : ∀ command reference completion, l = .currentRead command reference completion →
        command.state = .failed → completion.success →
          alreadySettled (s.shared.getById reference.backupId) completion := by
      rintro command reference completion rfl
      simpa only [FailureRecorded, htask] using hok
    have hsound : Sound g s.shared c (service.resume s.clock e s.shared l) := by
      simp only [service, resume]
      split
      · exact hshared.read (justified_thrown _ _ _)
      · exact statement_sound _ _ hshared hrelies.1 (hrelies.2 l rfl) hrecorded
    refine ⟨hsound.shared.mono hsub, ⟨hsub _ hrelies.1, hsound.justified⟩, ?_⟩
    intro j c' ph _ _ h
    exact h.mono hsub hsound.keeps

/-- In every run in which a success that is handed a failed command finds the
backup settled already, a completed backup has a completed command, or one that
was cancelled while a success with a lifecycle result was under way. -/
theorem command_backup_agree {rows : Commands} {backups : List Backup} (clock : Nat)
    (hkeys : (rows.map (·.id)).Nodup)
    (hnamed : ∀ ⦃command reference⦄, command ∈ rows → command.type = .backupFilesystem →
      commandReference command.payload = some reference →
      command.id = "remote-backup-" ++ reference.backupId)
    (hagree : Agree [] ⟨rows, backups⟩) {ls : Labels}
    (hmeets : service.Meets Program.labels FailureRecorded [] ⟨clock, ⟨rows, backups⟩, []⟩ ls) :
    ∀ pre post, ls = pre ++ post →
      Agree pre (service.run ⟨clock, ⟨rows, backups⟩, []⟩ pre).shared := by
  rintro pre post rfl
  have hinit : Holds (fun g _ s => Shared g s) Relies []
      (⟨clock, ⟨rows, backups⟩, []⟩ : State) := ⟨⟨hkeys, hnamed, hagree⟩, by simp⟩
  have hholds := agree_rely.holds_run hmeets.of_append hinit
  rw [Program.history_labels] at hholds
  simpa using hholds.shared.agree

/-! ## A second attempt that failed, and the success of the first -/

/-- A backup under way whose command is leased to its second attempt. -/
def secondAttempt : Server where
  commands :=
    [{ id := "remote-backup-b1"
       agentId := "agent"
       type := .backupFilesystem
       payload := [("backupId", some "b1"), ("planId", some "p1"), ("repositoryId", some "r1")]
       state := .leased
       leasedAt := some 0
       leaseOwner := some "second-attempt-token-0123456789ab"
       leaseExpiresAt := some 60
       attemptCount := 2 }]
  backups :=
    [{ id := "b1", planId := some "p1", sourceId := "device", status := some .started,
       inProgress := true }]

/-- The second attempt, which holds the lease, reports a failure. -/
def secondFailure : Call :=
  .complete "agent" "remote-backup-b1" (some
    { sequence := 1, leaseToken := "second-attempt-token-0123456789ab", success := false,
      error := some "restic failed", failureStage := some "restic-backup",
      failureCode := some "restic-backup-failed" })

/-- The first attempt, whose lease is gone, reports a success. -/
def firstSuccess : Call :=
  .complete "agent" "remote-backup-b1" (some
    { sequence := 4, leaseToken := "first-attempt-token-0123456789abc", success := true,
      result := some ⟨"0123456789abcdef", "0123456789abcdef", none⟩ })

theorem secondAttempt_agree : Agree [] secondAttempt := by
  intro command backup _ hbackup _ hcompleted
  simp only [secondAttempt, List.mem_cons, List.not_mem_nil, or_false] at hbackup
  subst hbackup
  cases hcompleted

theorem secondAttempt_named : ∀ ⦃command reference⦄, command ∈ secondAttempt.commands →
    command.type = .backupFilesystem → commandReference command.payload = some reference →
    command.id = "remote-backup-" ++ reference.backupId := by
  intro command reference hmem _ hreference
  simp only [secondAttempt, List.mem_cons, List.not_mem_nil, or_false] at hmem
  subst hmem
  have heq : reference = ⟨"b1", "p1", "r1"⟩ := Option.some.inj (hreference.symm.trans rfl)
  subst heq
  rfl

/-- The failure reaches the backup before the late success arrives. -/
def settledFirst : Labels :=
  [.call secondFailure, .resume 0 {}, .resume 0 {}, .resume 0 {}, .resume 0 {}, .resume 0 {},
    .resume 0 {}, .resume 0 {}, .resume 0 {}, .call firstSuccess, .resume 1 {}, .resume 1 {},
    .resume 1 {}]

theorem command_backup_agree_settledFirst :
    Agree settledFirst (service.run ⟨0, secondAttempt, []⟩ settledFirst).shared :=
  command_backup_agree 0 (by decide) secondAttempt_named secondAttempt_agree (by decide) _ [] rfl

/-- The server crashes between the command and the backup; then the late success
arrives. -/
def crashBetween : Labels :=
  [.call secondFailure, .resume 0 {}, .resume 0 {}, .resume 0 {}, .crash, .call firstSuccess,
    .resume 1 {}, .resume 1 {}, .resume 1 {}, .resume 1 {}, .resume 1 {}, .resume 1 {},
    .resume 1 {}]

/-- The backup is completed although its command has failed. -/
theorem late_success_completes_failed_backup :
    Agree [] secondAttempt ∧
      ¬ Agree crashBetween (service.run ⟨0, secondAttempt, []⟩ crashBetween).shared := by
  refine ⟨secondAttempt_agree, fun h => ?_⟩
  have hend : ∃ command ∈ (service.run ⟨0, secondAttempt, []⟩ crashBetween).shared.commands,
      ∃ backup ∈ (service.run ⟨0, secondAttempt, []⟩ crashBetween).shared.backups,
        command.type = .backupFilesystem ∧
        commandReference command.payload = some ⟨"b1", "p1", "r1"⟩ ∧ backup.id = "b1" ∧
        backup.status = some .completed ∧ command.state = .failed := by
    decide
  obtain ⟨command, hcommand, backup, hbackup, htype, hreference, hid, hcompleted, hfailed⟩ := hend
  rcases h hcommand hbackup ⟨htype, _, hreference, hid⟩ hcompleted with hstate | ⟨hstate, -⟩ <;>
    simp [hfailed] at hstate

end Pluton.RemoteBackup
