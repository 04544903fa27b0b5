-- SUMMARY: Lease fencing: terminal commands are final, attempts act under their own lease.
import Pluton.Agent.Store

/-!
# Lease fencing

Every operation of `AgentStore` reads a row and later issues a conditional
update, so what protects a command is the condition of each update. `Audit`
keeps the history the table does not: the leases granted so far and how many of
them there were when each `leaseNext` call passed its gate and its pick.
-/
namespace Pluton.Agent

open Await

/-- A lease that the last statement of `leaseNext` granted. -/
structure Grant where
  task : Nat
  commandId : String
  agentId : String
  leaseOwner : String
  attempt : Nat

/-- The leases granted so far, oldest first, and for each call how many there
were when it ran its gate check and its pick. -/
structure Audit where
  grants : List Grant := []
  gateAt : Nat → Nat := fun _ => 0
  pickAt : Nat → Nat := fun _ => 0

abbrev State := Config Commands Call Loc Ret

/-- The statement a label is about to run. -/
def statement (s : State) : Label Call Unit → Option (Nat × Loc)
  | .resume i _ =>
    match s.tasks[i]? with
    | some ⟨_, .waiting l⟩ => some (i, l)
    | _ => none
  | _ => none

/-- The leases a statement grants. -/
def grantsOf (rows : Commands) (i : Nat) : Loc → List Grant
  | .leaseUpdate _ leaseOwner _ _ candidate =>
    (rows.filter (leaseCond candidate)).map fun row =>
      ⟨i, row.id, row.agentId, leaseOwner, candidate.attemptCount + 1⟩
  | _ => []

def Audit.record (a : Audit) (rows : Commands) (i : Nat) (l : Loc) : Audit where
  grants := a.grants ++ grantsOf rows i l
  gateAt := match l with
    | .leaseGate .. => Function.update a.gateAt i a.grants.length
    | _ => a.gateAt
  pickAt := match l with
    | .leasePick .. => Function.update a.pickAt i a.grants.length
    | _ => a.pickAt

def observe (a : Audit) (s : State) (label : Label Call Unit) : Audit :=
  match statement s label with
  | some (i, l) => a.record s.shared i l
  | none => a

/-! ## Calls and their statements -/

/-- The call a statement belongs to. -/
def Loc.call : Loc → Call
  | .leaseExpire agentId leaseOwner leaseMs _ => .leaseNext agentId leaseOwner leaseMs
  | .leaseGate agentId leaseOwner leaseMs _ => .leaseNext agentId leaseOwner leaseMs
  | .leasePick agentId leaseOwner leaseMs _ => .leaseNext agentId leaseOwner leaseMs
  | .leaseUpdate agentId leaseOwner leaseMs _ _ => .leaseNext agentId leaseOwner leaseMs
  | .ackRead agentId commandId leaseToken _ => .acknowledgeCommand agentId commandId leaseToken
  | .ackUpdate agentId commandId leaseToken _ _ => .acknowledgeCommand agentId commandId leaseToken
  | .eventRead agentId commandId leaseToken sequence leaseMs _ =>
    .recordCommandEvent agentId commandId leaseToken sequence leaseMs
  | .eventUpdate agentId commandId leaseToken sequence leaseMs _ =>
    .recordCommandEvent agentId commandId leaseToken sequence leaseMs
  | .completeRead agentId commandId leaseToken sequence success error _ =>
    .completeCommand agentId commandId leaseToken sequence success error
  | .completeUpdate agentId commandId leaseToken sequence success error _ _ =>
    .completeCommand agentId commandId leaseToken sequence success error
  | .cancelRead commandId => .cancelCommand commandId
  | .cancelUpdate commandId _ _ => .cancelCommand commandId
  | .statusRead agentId commandId leaseToken leaseMs _ =>
    .getCommandStatus agentId commandId leaseToken leaseMs
  | .statusUpdate agentId commandId leaseToken leaseMs _ =>
    .getCommandStatus agentId commandId leaseToken leaseMs

/-- The clock the call of a statement works with; `cancelCommand` has none. -/
def Loc.now : Loc → Nat
  | .leaseExpire _ _ _ now | .leaseGate _ _ _ now | .leasePick _ _ _ now
  | .leaseUpdate _ _ _ now _ | .ackRead _ _ _ now | .ackUpdate _ _ _ now _
  | .eventRead _ _ _ _ _ now | .eventUpdate _ _ _ _ _ now | .completeRead _ _ _ _ _ _ now
  | .completeUpdate _ _ _ _ _ _ now _ | .statusRead _ _ _ _ now | .statusUpdate _ _ _ _ now => now
  | .cancelRead _ | .cancelUpdate _ _ _ => 0

/-- The token an attempt's call carries. -/
def Call.leaseToken? : Call → Option String
  | .acknowledgeCommand _ _ leaseToken => some leaseToken
  | .recordCommandEvent _ _ leaseToken _ _ => some leaseToken
  | .completeCommand _ _ leaseToken _ _ _ => some leaseToken
  | .getCommandStatus _ _ leaseToken _ => some leaseToken
  | .leaseNext .. | .cancelCommand _ => none

/-- The token a `leaseNext` call brings. -/
def Call.leaseOwner? : Call → Option String
  | .leaseNext _ leaseOwner _ => some leaseOwner
  | _ => none

theorem enter_call (clock : Nat) (c : Call) :
    ∃ l, enter clock c = .waiting l ∧ l.call = c := by
  cases c <;> exact ⟨_, rfl, rfl⟩

/-- A call stays the same call from one statement to the next. -/
theorem resume_call {clock : Nat} {e : Unit} {rows : Commands} {l l' : Loc}
    (h : (resume clock e rows l).2 = .waiting l') : l'.call = l.call ∧ l'.now = l.now := by
  cases l <;> simp only [resume] at h <;> (repeat' split at h) <;> cases h <;> exact ⟨rfl, rfl⟩

/-! ## What one statement does to one row -/

/-- A lease on the row is granted by the statement. -/
def Loc.grants (l : Loc) (row : AgentCommand) : Bool :=
  match l with
  | .leaseUpdate _ _ _ _ candidate => leaseCond candidate row
  | _ => false

variable {row : AgentCommand}

/-- A statement of an attempt rewrites a row only under the token that owns its
live lease. -/
theorem Loc.held_of_cond {l : Loc} {token : String} (htoken : l.call.leaseToken? = some token)
    (h : l.cond row) :
    row.leaseOwner = some token ∧ row.leaseAfter l.now := by
  cases l <;> simp [Loc.call, Call.leaseToken?] at htoken <;> subst htoken <;>
    simp [Loc.cond, ackCond, sequenceCond, statusCond, leaseHeld] at h <;>
    simp [Loc.now, h]

theorem Loc.lastEventSequence_le (l : Loc) (row : AgentCommand) :
    row.lastEventSequence ≤ (l.apply row).lastEventSequence := by
  unfold Loc.apply
  split
  · rename_i h
    cases l <;> simp [Loc.cond, sequenceCond] at h <;>
      simp [Loc.set, expireSet, leaseSet, ackSet, eventSet, completeSet, cancelSet, statusSet] <;>
      omega
  · exact Nat.le_refl _

theorem Loc.cond_of_grants {l : Loc} (h : l.grants row) : l.cond row := by
  cases l <;> first | exact h | simp [Loc.grants] at h

theorem Loc.attemptCount_apply {l : Loc} (h : l.grants row = false) :
    (l.apply row).attemptCount = row.attemptCount := by
  unfold Loc.apply
  split
  · rename_i hcond
    cases l <;> first | rfl | (simp [Loc.grants] at h; simp [Loc.cond, h] at hcond)
  · rfl

/-! ## What one step does to the configuration -/

/-- A step runs a statement, or leaves the table alone and only moves the clock,
starts a call or loses the calls in flight. -/
theorem step_cases (s : State) (label : Label Call Unit) :
    (∃ i c l, label = .resume i () ∧ s.tasks[i]? = some ⟨c, .waiting l⟩ ∧
      statement s label = some (i, l) ∧
      store.step s label =
        { s with
          shared := s.shared.map l.apply
          tasks := s.tasks.set i ⟨c, (resume s.clock () s.shared l).2⟩ }) ∨
    (statement s label = none ∧ (store.step s label).shared = s.shared) := by
  cases label with
  | tick d => exact .inr ⟨rfl, rfl⟩
  | call c => exact .inr ⟨rfl, rfl⟩
  | crash => exact .inr ⟨rfl, rfl⟩
  | resume i e =>
      match htask : s.tasks[i]? with
      | some ⟨c, .waiting l⟩ =>
          refine .inl ⟨i, c, l, rfl, htask, by simp [statement, htask], ?_⟩
          simp [Program.step, htask, store, resume_rows]
      | some ⟨c, .returned r⟩ =>
          exact .inr ⟨by simp [statement, htask], by simp [Program.step, htask]⟩
      | some ⟨c, .lost⟩ =>
          exact .inr ⟨by simp [statement, htask], by simp [Program.step, htask]⟩
      | none => exact .inr ⟨by simp [statement, htask], by simp [Program.step, htask]⟩

/-- The lease on a row that a step grants. -/
def grantedBy (s : State) (label : Label Call Unit) (row : AgentCommand) : Bool :=
  match statement s label with
  | some (_, l) => l.grants row
  | none => false

/-- What a step may do to a row it finds in the table. -/
structure Fenced (s : State) (label : Label Call Unit) (row row' : AgentCommand) : Prop where
  /-- A settled command is final. -/
  final : row.state.terminal → row' = row
  /-- Only `leaseNext`, `cancelCommand` and the owner of the live lease change the
  state, the expiry or the sequence. -/
  owner : row'.state ≠ row.state ∨ row'.leaseExpiresAt ≠ row.leaseExpiresAt ∨
      row'.lastEventSequence ≠ row.lastEventSequence →
    ∃ i c l, label = .resume i () ∧ s.tasks[i]? = some ⟨c, .waiting l⟩ ∧
      ((∃ agentId leaseOwner leaseMs, c = .leaseNext agentId leaseOwner leaseMs) ∨
        (∃ commandId, c = .cancelCommand commandId) ∨
        ∃ token, c.leaseToken? = some token ∧ row.leaseOwner = some token ∧
          row.leaseAfter l.now)
  /-- The sequence never goes back. -/
  sequence : row.lastEventSequence ≤ row'.lastEventSequence
  /-- The attempt count goes up by one for a lease granted and by nothing else. -/
  attempt : row'.attemptCount =
    if grantedBy s label row then row.attemptCount + 1 else row.attemptCount

/-! ## Conditions on a run -/

/-- A `leaseNext` call brings a token that no earlier `leaseNext` call brought. -/
def FreshOwner (s : State) : Label Call Unit → Prop
  | .call c => ∀ t ∈ s.tasks, c.leaseOwner? = none ∨ t.call.leaseOwner? ≠ c.leaseOwner?
  | _ => True

instance (s : State) (label : Label Call Unit) : Decidable (FreshOwner s label) :=
  match label with
  | .call _ => inferInstanceAs (Decidable (∀ t ∈ s.tasks, _ ∨ _))
  | .tick _ | .resume _ _ | .crash => .isTrue trivial

/-- No other call was granted a lease on the candidate since this call picked it. -/
def PickStands (a : Audit) (s : State) (label : Label Call Unit) : Prop :=
  match statement s label with
  | some (i, .leaseUpdate _ _ _ _ candidate) =>
    ∀ g ∈ a.grants.drop (a.pickAt i), g.commandId ≠ candidate.id
  | _ => True

instance (a : Audit) (s : State) (label : Label Call Unit) : Decidable (PickStands a s label) := by
  unfold PickStands
  split <;> infer_instance

/-- What ties the calls in flight and the granted leases to the table. -/
structure LeaseInv (a : Audit) (s : State) : Prop where
  keys : (s.shared.map (·.id)).Nodup
  calls : ∀ {i : Nat} {c : Call} {l : Loc}, s.tasks[i]? = some ⟨c, .waiting l⟩ → l.call = c
  picked : ∀ i, a.pickAt i ≤ a.grants.length
  candidates : ∀ {i c agentId leaseOwner leaseMs now candidate},
    s.tasks[i]? = some ⟨c, .waiting (.leaseUpdate agentId leaseOwner leaseMs now candidate)⟩ →
    (∀ g ∈ a.grants.drop (a.pickAt i), g.commandId ≠ candidate.id) →
    ∃ row ∈ s.shared, row.id = candidate.id ∧ row.attemptCount = candidate.attemptCount
  owners : ∀ {i j : Nat} {t t' : Task Call Loc Ret}, s.tasks[i]? = some t → s.tasks[j]? = some t' →
    t.call.leaseOwner? ≠ none → t.call.leaseOwner? = t'.call.leaseOwner? → i = j
  spent : ∀ g ∈ a.grants, ∃ c ph, s.tasks[g.task]? = some ⟨c, ph⟩ ∧
    c.leaseOwner? = some g.leaseOwner ∧ ∀ l, ph ≠ .waiting l
  counted : ∀ g ∈ a.grants, ∃ row ∈ s.shared, row.id = g.commandId ∧ g.attempt ≤ row.attemptCount
  distinct : a.grants.Pairwise fun g g' =>
    g.commandId = g'.commandId → g.leaseOwner ≠ g'.leaseOwner ∧ g.attempt < g'.attempt

namespace LeaseInv

variable {a : Audit} {s : State} {i : Nat} {c : Call} {l : Loc}

theorem row_unique (h : LeaseInv a s) {row row' : AgentCommand} (hrow : row ∈ s.shared)
    (hrow' : row' ∈ s.shared) (hid : row.id = row'.id) : row = row' :=
  List.inj_on_of_nodup_map h.keys hrow hrow' hid

/-- A lease whose pick still stands counts from the row's own attempt count. -/
theorem grant_attempt (h : LeaseInv a s) (htask : s.tasks[i]? = some ⟨c, .waiting l⟩)
    (hstands : PickStands a s (.resume i ())) {row : AgentCommand} (hrow : row ∈ s.shared)
    (hgrant : l.grants row) : (l.apply row).attemptCount = row.attemptCount + 1 := by
  cases l with
  | leaseUpdate agentId leaseOwner leaseMs now candidate =>
      simp only [PickStands, statement, htask] at hstands
      obtain ⟨row', hrow', hid, hattempt⟩ := h.candidates htask hstands
      have hcond : row.id = candidate.id ∧ row.state = .queued := by
        simpa [Loc.grants, leaseCond] using hgrant
      have heq : row = row' := h.row_unique hrow hrow' (hcond.1.trans hid.symm)
      subst heq
      rw [Loc.apply_of_cond (Loc.cond_of_grants hgrant)]
      simp [Loc.set, leaseSet, hattempt]
  | _ => simp [Loc.grants] at hgrant

theorem attemptCount_le (h : LeaseInv a s) (htask : s.tasks[i]? = some ⟨c, .waiting l⟩)
    (hstands : PickStands a s (.resume i ())) {row : AgentCommand} (hrow : row ∈ s.shared) :
    row.attemptCount ≤ (l.apply row).attemptCount := by
  cases hgrant : l.grants row with
  | true => rw [h.grant_attempt htask hstands hrow hgrant]; omega
  | false => exact Nat.le_of_eq (Loc.attemptCount_apply hgrant).symm

theorem record_pickAt_of_ne {j : Nat} (hji : j ≠ i) :
    (a.record s.shared i l).pickAt j = a.pickAt j := by
  cases l <;> simp [Audit.record, Function.update_of_ne hji]

theorem mem_grantsOf {rows : Commands} {g : Grant} (hg : g ∈ grantsOf rows i l) :
    g.task = i ∧ l.call.leaseOwner? = some g.leaseOwner ∧
      ∃ row ∈ rows, row.id = g.commandId ∧ l.grants row ∧
        g.attempt = (l.apply row).attemptCount := by
  cases l with
  | leaseUpdate agentId leaseOwner leaseMs now candidate =>
      simp only [grantsOf, List.mem_map, List.mem_filter] at hg
      obtain ⟨row, ⟨hrow, hcond⟩, rfl⟩ := hg
      have hgrant : (Loc.leaseUpdate agentId leaseOwner leaseMs now candidate).grants row := hcond
      refine ⟨rfl, rfl, row, hrow, rfl, hgrant, ?_⟩
      rw [Loc.apply_of_cond (Loc.cond_of_grants hgrant)]
      rfl
  | _ => simp [grantsOf] at hg

theorem mem_grantsOf_of_grants {rows : Commands} {row : AgentCommand} (hrow : row ∈ rows)
    (hgrant : l.grants row) : ∃ g ∈ grantsOf rows i l, g.commandId = row.id := by
  cases l with
  | leaseUpdate agentId leaseOwner leaseMs now candidate =>
      refine ⟨⟨i, row.id, row.agentId, leaseOwner, candidate.attemptCount + 1⟩, ?_, rfl⟩
      simp only [grantsOf, List.mem_map, List.mem_filter]
      exact ⟨row, ⟨hrow, hgrant⟩, rfl⟩
  | _ => simp [Loc.grants] at hgrant

/-- One statement grants at most one lease on each command. -/
theorem grantsOf_pairwise {rows : Commands} (hkeys : (rows.map (·.id)).Nodup) :
    (grantsOf rows i l).Pairwise fun g g' => g.commandId ≠ g'.commandId := by
  cases l with
  | leaseUpdate agentId leaseOwner leaseMs now candidate =>
      have hrows : rows.Pairwise fun row row' => row.id ≠ row'.id := List.pairwise_map.mp hkeys
      exact List.pairwise_map.mpr (hrows.filter _)
  | _ => exact List.Pairwise.nil

/-- Starting a call keeps the invariant when the token it brings is fresh. -/
theorem call_step (h : LeaseInv a s) (hfresh : FreshOwner s (.call c)) :
    LeaseInv a (store.step s (.call c)) := by
  have hold : ∀ {j : Nat} {t : Task Call Loc Ret}, j < s.tasks.length →
      (store.step s (.call c)).tasks[j]? = some t → s.tasks[j]? = some t := by
    intro j t hj ht
    simpa [Program.step, List.getElem?_append_left hj] using ht
  have hnew : ∀ {j : Nat} {t : Task Call Loc Ret}, ¬ j < s.tasks.length →
      (store.step s (.call c)).tasks[j]? = some t →
      j = s.tasks.length ∧ t = ⟨c, enter s.clock c⟩ := by
    intro j t hj ht
    have hlt := (List.getElem?_eq_some_iff.mp ht).1
    have hjl : j = s.tasks.length := by
      simp [Program.step] at hlt
      omega
    subst hjl
    refine ⟨rfl, ?_⟩
    simpa [Program.step, store, eq_comm] using ht
  obtain ⟨l₀, henter, hcall⟩ := enter_call s.clock c
  refine { h with calls := ?_, candidates := ?_, owners := ?_, spent := ?_ }
  · intro j c' l' ht
    by_cases hj : j < s.tasks.length
    · exact h.calls (hold hj ht)
    · obtain ⟨-, heq⟩ := hnew hj ht
      rw [henter] at heq
      cases heq
      exact hcall
  · intro j c' agentId leaseOwner leaseMs now candidate ht
    by_cases hj : j < s.tasks.length
    · exact h.candidates (hold hj ht)
    -- A new call has not read a candidate yet.
    · obtain ⟨-, heq⟩ := hnew hj ht
      cases c <;> simp [enter] at heq
  · intro j j' t t' ht ht' hsome heq
    -- The owner of a new call is fresh, so no earlier call has it.
    by_cases hj : j < s.tasks.length <;> by_cases hj' : j' < s.tasks.length
    · exact h.owners (hold hj ht) (hold hj' ht') hsome heq
    · obtain ⟨-, rfl⟩ := hnew hj' ht'
      rcases hfresh t (List.mem_of_getElem? (hold hj ht)) with hnone | hne
      · exact absurd (heq.trans hnone) hsome
      · exact absurd heq hne
    · obtain ⟨-, rfl⟩ := hnew hj ht
      rcases hfresh t' (List.mem_of_getElem? (hold hj' ht')) with hnone | hne
      · exact absurd hnone hsome
      · exact absurd heq.symm hne
    · rw [(hnew hj ht).1, (hnew hj' ht').1]
  · intro g hg
    obtain ⟨c', ph, htask, hrest⟩ := h.spent g hg
    refine ⟨c', ph, ?_, hrest⟩
    have hlt := (List.getElem?_eq_some_iff.mp htask).1
    simpa [Program.step, List.getElem?_append_left hlt] using htask

theorem crash_step (h : LeaseInv a s) : LeaseInv a (store.step s .crash) := by
  have hold : ∀ {j : Nat} {t : Task Call Loc Ret}, (store.step s .crash).tasks[j]? = some t →
      ∃ t₀, s.tasks[j]? = some t₀ ∧ t₀.crash = t := by
    intro j t ht
    simpa [Program.step] using ht
  have hphase : ∀ {t₀ : Task Call Loc Ret} {c' l'}, t₀.crash ≠ ⟨c', .waiting l'⟩ := by
    rintro ⟨c₀, ph⟩ c' l' heq
    cases ph <;> simp [Task.crash] at heq
  have hcall : ∀ t₀ : Task Call Loc Ret, t₀.crash.call = t₀.call := by
    rintro ⟨c₀, ph⟩
    cases ph <;> rfl
  refine { h with calls := ?_, candidates := ?_, owners := ?_, spent := ?_ }
  · intro j c' l' ht
    obtain ⟨t₀, -, heq⟩ := hold ht
    exact absurd heq hphase
  · intro j c' agentId leaseOwner leaseMs now candidate ht
    obtain ⟨t₀, -, heq⟩ := hold ht
    exact absurd heq hphase
  · intro j j' t t' ht ht' hsome heq
    obtain ⟨t₀, ht₀, rfl⟩ := hold ht
    obtain ⟨t₀', ht₀', rfl⟩ := hold ht'
    rw [hcall, hcall] at heq
    rw [hcall] at hsome
    exact h.owners ht₀ ht₀' hsome heq
  · intro g hg
    obtain ⟨c', ph, htask, howner, hwait⟩ := h.spent g hg
    refine ⟨c', ph, ?_, howner, hwait⟩
    cases ph with
    | waiting l' => exact absurd rfl (hwait l')
    | returned r => simp [Program.step, htask, Task.crash]
    | lost => simp [Program.step, htask, Task.crash]

/-- The configuration after a call ran one statement. -/
def ran (s : State) (i : Nat) (c : Call) (l : Loc) : State :=
  { s with
    shared := s.shared.map l.apply
    tasks := s.tasks.set i ⟨c, (resume s.clock () s.shared l).2⟩ }

/-- A task after a statement: the one that ran, or an older one. -/
theorem ran_task (htask : s.tasks[i]? = some ⟨c, .waiting l⟩) {j : Nat} {t : Task Call Loc Ret}
    (ht : (ran s i c l).tasks[j]? = some t) :
    (j = i ∧ t = ⟨c, (resume s.clock () s.shared l).2⟩) ∨ (j ≠ i ∧ s.tasks[j]? = some t) := by
  by_cases hji : j = i
  · subst hji
    have hlt := (List.getElem?_eq_some_iff.mp htask).1
    refine .inl ⟨rfl, ?_⟩
    simpa [ran, List.getElem?_set_self hlt, eq_comm] using ht
  · exact .inr ⟨hji, by simpa [ran, List.getElem?_set_ne (Ne.symm hji)] using ht⟩

/-- The candidate of a call stays current as long as no lease on it is granted. -/
theorem candidates_ran (h : LeaseInv a s) (htask : s.tasks[i]? = some ⟨c, .waiting l⟩)
    {j : Nat} {c' : Call} {agentId leaseOwner : String} {leaseMs now : Nat}
    {candidate : AgentCommand}
    (ht : (ran s i c l).tasks[j]? =
      some ⟨c', .waiting (.leaseUpdate agentId leaseOwner leaseMs now candidate)⟩)
    (hnone : ∀ g ∈ (a.record s.shared i l).grants.drop ((a.record s.shared i l).pickAt j),
      g.commandId ≠ candidate.id) :
    ∃ row ∈ (ran s i c l).shared,
      row.id = candidate.id ∧ row.attemptCount = candidate.attemptCount := by
  rcases ran_task htask ht with ⟨rfl, heq⟩ | ⟨hji, hold⟩
  · -- The call that ran has just picked its candidate from the table.
    cases l with
    | leasePick agentId' leaseOwner' leaseMs' now' =>
        simp only [resume, Task.mk.injEq] at heq
        split at heq
        · cases heq.2
        · rename_i candidate' hpick
          have hcand : candidate = candidate' := by cases heq.2; rfl
          subst hcand
          refine ⟨candidate, ?_, rfl, rfl⟩
          have hmem := (Table.mem_of_firstBy hpick).1
          exact List.mem_map.mpr ⟨candidate, hmem, Loc.apply_of_not_cond rfl⟩
    | _ =>
        have hcall := resume_call (congrArg Task.phase heq).symm
        simp only [resume, Task.mk.injEq] at heq
        (repeat' split at heq) <;> cases heq.2
  · rw [record_pickAt_of_ne hji] at hnone
    simp only [Audit.record, List.drop_append_of_le_length (h.picked j), List.mem_append] at hnone
    obtain ⟨row, hrow, hid, hattempt⟩ := h.candidates hold fun g hg => hnone g (.inl hg)
    refine ⟨l.apply row, List.mem_map_of_mem hrow, (l.apply_key row).1.trans hid, ?_⟩
    rw [← hattempt]
    cases hgrant : l.grants row with
    | false => exact Loc.attemptCount_apply hgrant
    | true =>
        obtain ⟨g, hg, hgid⟩ := mem_grantsOf_of_grants (i := i) hrow hgrant
        exact absurd (hgid.trans hid) (hnone g (.inr hg))

/-- A granted lease is new: no earlier attempt has its token or its number. -/
theorem distinct_ran (h : LeaseInv a s) (htask : s.tasks[i]? = some ⟨c, .waiting l⟩)
    (hstands : PickStands a s (.resume i ())) :
    (a.record s.shared i l).grants.Pairwise fun g g' =>
      g.commandId = g'.commandId → g.leaseOwner ≠ g'.leaseOwner ∧ g.attempt < g'.attempt := by
  refine List.pairwise_append.mpr ⟨h.distinct, ?_, ?_⟩
  · exact (grantsOf_pairwise h.keys).imp fun hne heq => absurd heq hne
  · intro g hg g' hg' hid
    obtain ⟨htask', howner', row', hrow', hid', hgrant', hattempt'⟩ := mem_grantsOf hg'
    constructor
    · intro heq
      obtain ⟨c₀, ph, ht, howner, hwait⟩ := h.spent g hg
      have hsame : g.task = i := by
        refine h.owners ht htask (by simp [howner]) ?_
        rw [← h.calls htask, howner', howner, heq]
      rw [hsame, htask] at ht
      cases ht
      exact hwait l rfl
    · obtain ⟨row, hrow, hrowid, hle⟩ := h.counted g hg
      have heq : row = row' := h.row_unique hrow hrow' (hrowid.trans (hid.trans hid'.symm))
      subst heq
      rw [hattempt', h.grant_attempt htask hstands hrow hgrant']
      omega

/-- Every granted lease is still counted by its row. -/
theorem counted_ran (h : LeaseInv a s) (htask : s.tasks[i]? = some ⟨c, .waiting l⟩)
    (hstands : PickStands a s (.resume i ())) :
    ∀ g ∈ (a.record s.shared i l).grants,
      ∃ row ∈ (ran s i c l).shared, row.id = g.commandId ∧ g.attempt ≤ row.attemptCount := by
  intro g hg
  rcases List.mem_append.mp hg with hold | hnew
  · obtain ⟨row, hrow, hid, hle⟩ := h.counted g hold
    exact ⟨l.apply row, List.mem_map_of_mem hrow, (l.apply_key row).1.trans hid,
      Nat.le_trans hle (h.attemptCount_le htask hstands hrow)⟩
  · obtain ⟨-, -, row, hrow, hid, -, hattempt⟩ := mem_grantsOf hnew
    exact ⟨l.apply row, List.mem_map_of_mem hrow, (l.apply_key row).1.trans hid,
      Nat.le_of_eq hattempt⟩

theorem statement_step (h : LeaseInv a s) (htask : s.tasks[i]? = some ⟨c, .waiting l⟩)
    (hstands : PickStands a s (.resume i ())) :
    LeaseInv (a.record s.shared i l) (ran s i c l) where
  keys := keys_apply l h.keys
  calls := by
    intro j c' l' ht
    rcases ran_task htask ht with ⟨-, heq⟩ | ⟨-, hold⟩
    · have hphase := congrArg Task.phase heq
      have hcall := congrArg Task.call heq
      simp only at hphase hcall
      rw [(resume_call hphase.symm).1, hcall]
      exact h.calls htask
    · exact h.calls hold
  picked := by
    intro j
    have hlen : a.grants.length ≤ (a.record s.shared i l).grants.length := by
      simp [Audit.record]
    by_cases hji : j = i
    · subst hji
      have hj := h.picked j
      cases l <;> simp [Audit.record] <;> omega
    · rw [record_pickAt_of_ne hji]
      exact Nat.le_trans (h.picked j) hlen
  candidates := h.candidates_ran htask
  owners := by
    intro j j' t t' ht ht' hsome heq
    have hcall : ∀ {j : Nat} {t : Task Call Loc Ret}, (ran s i c l).tasks[j]? = some t →
        ∃ t₀ : Task Call Loc Ret, s.tasks[j]? = some t₀ ∧ t₀.call = t.call := by
      intro j t ht
      rcases ran_task htask ht with ⟨rfl, rfl⟩ | ⟨-, hold⟩
      · exact ⟨_, htask, rfl⟩
      · exact ⟨t, hold, rfl⟩
    obtain ⟨t₀, ht₀, hc⟩ := hcall ht
    obtain ⟨t₀', ht₀', hc'⟩ := hcall ht'
    exact h.owners ht₀ ht₀' (by rw [hc]; exact hsome) (by rw [hc, hc']; exact heq)
  spent := by
    intro g hg
    rcases List.mem_append.mp hg with hold | hnew
    · obtain ⟨c', ph, ht, howner, hwait⟩ := h.spent g hold
      have hne : g.task ≠ i := by
        intro heq
        rw [heq, htask] at ht
        cases ht
        exact hwait l rfl
      refine ⟨c', ph, ?_, howner, hwait⟩
      simpa [ran, List.getElem?_set_ne (Ne.symm hne)] using ht
    -- a call that grants is over with that statement
    · obtain ⟨heq, howner, row, hrow, -, hgrant, -⟩ := mem_grantsOf hnew
      have hlt := (List.getElem?_eq_some_iff.mp htask).1
      refine ⟨c, (resume s.clock () s.shared l).2, ?_, ?_, ?_⟩
      · simp [ran, heq, List.getElem?_set_self hlt]
      · rw [← h.calls htask]
        exact howner
      · intro l' hphase
        cases l <;> simp [Loc.grants] at hgrant
        simp [resume] at hphase
  counted := h.counted_ran htask hstands
  distinct := h.distinct_ran htask hstands

end LeaseInv

/-! ## Runs -/

/-- Every step of the run is fenced at every row, and no two leases granted on
one command share a token or an attempt number. -/
def LeaseFencing (s : State) (ls : List (Label Call Unit)) : Prop :=
  (∀ pre label post, ls = pre ++ label :: post → ∀ (k : Nat) row row',
    (store.run s pre).shared[k]? = some row →
    (store.run s (pre ++ [label])).shared[k]? = some row' →
    Fenced (store.run s pre) label row row') ∧
  (store.history observe {} s ls).grants.Pairwise fun g g' =>
    g.commandId = g'.commandId → g.leaseOwner ≠ g'.leaseOwner ∧ g.attempt ≠ g'.attempt

/-- Tokens are fresh, and no lease is granted on a pick that another call has
overtaken. -/
def PicksStand (a : Audit) (s : State) (label : Label Call Unit) : Prop :=
  FreshOwner s label ∧ PickStands a s label

instance (a : Audit) (s : State) (label : Label Call Unit) : Decidable (PicksStand a s label) :=
  instDecidableAnd

theorem leaseInv_step (a : Audit) (s : State) (label : Label Call Unit)
    (hok : PicksStand a s label) (h : LeaseInv a s) :
    LeaseInv (observe a s label) (store.step s label) := by
  rcases step_cases s label with ⟨i, c, l, rfl, htask, hstmt, hstep⟩ | ⟨hstmt, -⟩
  · rw [hstep, observe, hstmt]
    exact h.statement_step htask hok.2
  · rw [observe, hstmt]
    cases label with
    | tick d => exact { h with }
    | call c => exact h.call_step hok.1
    | crash => exact h.crash_step
    | resume i e =>
        rcases Program.step_resume_cases store s i e with hidle | ⟨c, l, htask, -⟩
        · rw [hidle]
          exact h
        · simp [statement, htask] at hstmt

theorem leaseInv_start {rows : Commands} (hkeys : (rows.map (·.id)).Nodup) (clock : Nat) :
    LeaseInv {} (⟨clock, rows, []⟩ : State) where
  keys := hkeys
  calls := by simp
  picked := by simp
  candidates := by simp
  owners := by simp
  spent := by simp
  counted := by simp
  distinct := List.Pairwise.nil

theorem fenced_step {a : Audit} {s : State} {label : Label Call Unit}
    (hstands : PickStands a s label) (h : LeaseInv a s) {k : Nat} {row row' : AgentCommand}
    (hrow : s.shared[k]? = some row) (hrow' : (store.step s label).shared[k]? = some row') :
    Fenced s label row row' := by
  rcases step_cases s label with ⟨i, c, l, rfl, htask, hstmt, hstep⟩ | ⟨hstmt, hshared⟩
  · have hmem : row ∈ s.shared := List.mem_of_getElem? hrow
    have heq : row' = l.apply row := by
      rw [hstep, List.getElem?_map, hrow] at hrow'
      exact (Option.some.inj hrow').symm
    subst heq
    refine ⟨?_, ?_, l.lastEventSequence_le row, ?_⟩
    · intro hterminal
      exact Loc.apply_of_terminal hterminal
    · intro hchange
      have hcond : l.cond row := by
        by_contra hcond
        simp [Loc.apply_of_not_cond (Bool.eq_false_iff.mpr hcond)] at hchange
      refine ⟨i, c, l, rfl, htask, ?_⟩
      have hcall := h.calls htask
      subst hcall
      cases htoken : l.call.leaseToken? with
      | some token => exact .inr (.inr ⟨token, rfl, l.held_of_cond htoken hcond⟩)
      | none =>
          cases hcall : l.call with
          | leaseNext agentId leaseOwner leaseMs => exact .inl ⟨_, _, _, rfl⟩
          | cancelCommand commandId => exact .inr (.inl ⟨_, rfl⟩)
          | _ => rw [hcall] at htoken; simp [Call.leaseToken?] at htoken
    · simp only [grantedBy, hstmt]
      cases hgrant : l.grants row with
      | true => simp [h.grant_attempt htask hstands hmem hgrant]
      | false => simp [Loc.attemptCount_apply hgrant]
  · rw [hshared, hrow] at hrow'
    cases hrow'
    refine ⟨fun _ => rfl, ?_, Nat.le_refl _, by simp [grantedBy, hstmt]⟩
    intro hchange
    simp at hchange

/-- Lease fencing holds in every run in which no lease is granted on a pick that
another call has overtaken. -/
theorem lease_fencing {rows : Commands} (hkeys : (rows.map (·.id)).Nodup) (clock : Nat)
    {ls : List (Label Call Unit)}
    (hmeets : store.Meets observe PicksStand {} ⟨clock, rows, []⟩ ls) :
    LeaseFencing ⟨clock, rows, []⟩ ls := by
  have hstart := leaseInv_start hkeys clock
  constructor
  · rintro pre label post rfl k row row' hrow hrow'
    have hinv := hmeets.of_append.invariant leaseInv_step hstart
    have hok := hmeets.at_step
    rw [Program.run_append] at hrow'
    exact fenced_step hok.2 hinv hrow hrow'
  · have hinv := hmeets.invariant leaseInv_step hstart
    exact hinv.distinct.imp fun hg heq => ⟨(hg heq).1, Nat.ne_of_lt (hg heq).2⟩

/-- A command leased, its lease left to expire, and leased again. -/
theorem lease_fencing_of_retry :
    LeaseFencing ⟨0, [{ id := "command", agentId := "agent" }], []⟩
      [.call (.leaseNext "agent" "token-0" 60000), .resume 0 (), .resume 0 (), .resume 0 (),
        .resume 0 (), .tick 60000, .call (.leaseNext "agent" "token-1" 60000), .resume 1 (),
        .resume 1 (), .resume 1 (), .resume 1 ()] :=
  lease_fencing (by decide) 0 (by decide)

/-- One command, picked by two `leaseNext` calls; the second update runs after the
first lease has expired and a third call has queued the command again. -/
def stalePickRun : List (Label Call Unit) :=
  [.call (.leaseNext "agent" "token-0" 60000), .call (.leaseNext "agent" "token-1" 60000),
    .resume 0 (), .resume 0 (), .resume 0 (), .resume 1 (), .resume 1 (), .resume 1 (),
    .resume 0 (), .tick 60000, .call (.leaseNext "agent" "token-2" 60000), .resume 2 (),
    .resume 1 ()]

/-- Two attempts share the attempt number 1. -/
theorem stale_pick_shares_attempt :
    store.Meets observe (fun _ s label => FreshOwner s label) {}
      ⟨0, [{ id := "command", agentId := "agent" }], []⟩ stalePickRun ∧
    ¬ LeaseFencing ⟨0, [{ id := "command", agentId := "agent" }], []⟩ stalePickRun :=
  ⟨by decide, fun h => absurd h.2 (by decide)⟩

end Pluton.Agent
