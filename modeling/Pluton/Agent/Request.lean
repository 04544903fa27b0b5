-- SUMMARY: Operations of `AgentStore` run as a whole, and what one of them can do to a command.
import Pluton.Agent.Leases

/-!
# Whole requests

`perform` runs the statements of an operation one after the other, as for a
request that no other request interleaves with. `Moves` says once what an
operation can do to a row; it holds of every statement of the operation and
composes, so it holds of the whole operation.
-/
namespace Pluton.Agent

open Await

/-- Runs a call from a phase to its end, for at most `fuel` statements. -/
def performFrom (clock : Nat) : Nat → Commands → Phase Loc Ret → Commands × Option Ret
  | _, rows, .returned r => (rows, some r)
  | fuel + 1, rows, .waiting l =>
    let next := resume clock () rows l
    performFrom clock fuel next.1 next.2
  | _, rows, _ => (rows, none)

/-- An operation as a whole; none has more than four statements. -/
def perform (clock : Nat) (rows : Commands) (c : Call) : Commands × Option Ret :=
  performFrom clock 4 rows (enter clock c)

/-- A command that has an owner is active or settled. -/
def AgentCommand.Owned (row : AgentCommand) : Prop :=
  row.leaseOwner ≠ none → row.state.active ∨ row.state.terminal

/-- What the operation `c` can do to a row. -/
structure Moves (c : Call) (row row' : AgentCommand) : Prop where
  id : row'.id = row.id
  agentId : row'.agentId = row.agentId
  type : row'.type = row.type
  final : row.state.terminal → row' = row
  owned : row.Owned → row'.Owned
  /-- The owner stays, is removed, or is the one that `leaseNext` brings. -/
  owner : row'.leaseOwner = row.leaseOwner ∨ row'.leaseOwner = none ∨
    ∃ token, c.leaseOwner? = some token ∧ row'.leaseOwner = some token
  /-- The sequence stays, unless the command is settled or its owner records an event. -/
  sequence : row'.lastEventSequence = row.lastEventSequence ∨ row'.state.terminal ∨
    ∃ agentId token sequence leaseMs,
      c = .recordCommandEvent agentId row.id token sequence leaseMs ∧
      row.leaseOwner = some token ∧ row'.lastEventSequence = sequence

namespace Moves

theorem refl (c : Call) (row : AgentCommand) : Moves c row row :=
  ⟨rfl, rfl, rfl, fun _ => rfl, fun h => h, .inl rfl, .inl rfl⟩

theorem trans {c : Call} {row row' row'' : AgentCommand} (h : Moves c row row')
    (h' : Moves c row' row'') : Moves c row row'' where
  id := h'.id.trans h.id
  agentId := h'.agentId.trans h.agentId
  type := h'.type.trans h.type
  final := by
    intro hterminal
    have heq := h.final hterminal
    subst heq
    exact h'.final hterminal
  owned := fun howned => h'.owned (h.owned howned)
  owner := by
    rcases h'.owner with heq | hnone | hnew
    · rw [heq]
      exact h.owner
    · exact .inr (.inl hnone)
    · exact .inr (.inr hnew)
  sequence := by
    rcases h'.sequence with heq | hterminal | ⟨agentId, token, sequence, leaseMs, rfl, howner, hseq⟩
    · rcases h.sequence with hsame | hterminal | hevent
      · exact .inl (heq.trans hsame)
      · exact .inr (.inl (h'.final hterminal ▸ hterminal))
      · exact .inr (.inr (heq ▸ hevent))
    · exact .inr (.inl hterminal)
    · refine .inr (.inr ⟨agentId, token, sequence, leaseMs, by rw [h.id], ?_, hseq⟩)
      -- the owner that records the event owned the row before the first statement too
      rcases h.owner with hsame | hnone | ⟨token', hnew, -⟩
      · exact hsame ▸ howner
      · rw [hnone] at howner
        cases howner
      · cases hnew

end Moves

/-- Each statement of an operation moves a row as the operation may. -/
theorem Loc.moves (l : Loc) (row : AgentCommand) : Moves l.call row (l.apply row) := by
  by_cases hcond : l.cond row
  · have happly := Loc.apply_of_cond hcond
    refine ⟨(l.apply_key row).1, (l.apply_key row).2, (l.apply_payload row).1,
      Loc.apply_of_terminal, ?_, ?_, ?_⟩
    · intro _ _
      rw [happly]
      cases l <;> simp_all [Loc.set, Loc.cond, expireSet, leaseSet, ackSet, eventSet, completeSet,
        cancelSet, statusSet, statusCond, AgentCommandState.active, AgentCommandState.terminal]
      split <;> simp
    · rw [happly]
      cases l <;> simp [Loc.set, Loc.call, Call.leaseOwner?, expireSet, leaseSet, ackSet, eventSet,
        completeSet, cancelSet, statusSet]
    · rw [happly]
      cases l with
      | eventUpdate agentId commandId leaseToken sequence leaseMs now =>
          simp only [Loc.cond, sequenceCond, leaseHeld, Bool.decide_and, Bool.and_eq_true,
            decide_eq_true_eq] at hcond
          obtain ⟨⟨hid, -, howner, -⟩, -⟩ := hcond
          exact .inr (.inr ⟨agentId, leaseToken, sequence, leaseMs, by rw [hid]; rfl, howner, rfl⟩)
      | completeUpdate agentId commandId leaseToken sequence success error now at_ =>
          refine .inr (.inl ?_)
          cases success <;> rfl
      | _ => exact .inl rfl
  · rw [Loc.apply_of_not_cond (Bool.eq_false_iff.mpr hcond)]
    exact Moves.refl _ _

/-! ## The whole operation -/

theorem performFrom_rows (clock fuel : Nat) (rows : Commands) {c : Call} {ph : Phase Loc Ret}
    (hph : ∀ l, ph = .waiting l → l.call = c) :
    ∃ f, (performFrom clock fuel rows ph).1 = rows.map f ∧ ∀ row, Moves c row (f row) := by
  induction fuel generalizing rows ph with
  | zero =>
      refine ⟨id, ?_, Moves.refl c⟩
      cases ph <;> simp [performFrom]
  | succ fuel ih =>
      cases ph with
      | returned r => exact ⟨id, by simp [performFrom], Moves.refl c⟩
      | lost => exact ⟨id, by simp [performFrom], Moves.refl c⟩
      | waiting l =>
          have hcall : ∀ l', (resume clock () rows l).2 = .waiting l' → l'.call = c := by
            intro l' hl'
            exact (resume_call hl').1.trans (hph l rfl)
          obtain ⟨f, hrows, hmoves⟩ := ih (resume clock () rows l).1 hcall
          refine ⟨f ∘ l.apply, ?_, ?_⟩
          · simp only [performFrom]
            rw [hrows, resume_rows, List.map_map]
          · intro row
            exact (hph l rfl ▸ l.moves row).trans (hmoves (l.apply row))

theorem perform_rows (clock : Nat) (rows : Commands) (c : Call) :
    ∃ f, (perform clock rows c).1 = rows.map f ∧ ∀ row, Moves c row (f row) := by
  refine performFrom_rows clock 4 rows ?_
  intro l hl
  obtain ⟨l', henter, hcall⟩ := enter_call clock c
  rw [henter] at hl
  cases hl
  exact hcall

variable {rows : Commands} {row : AgentCommand}

/-- What an operation returns is what its last statement returns. -/
theorem performFrom_last {clock fuel : Nat} {l : Loc} {r : Ret}
    (h : (performFrom clock fuel rows (.waiting l)).2 = some r) :
    ∃ rows' l', l'.call = l.call ∧ (resume clock () rows' l').2 = .returned r ∧
      (resume clock () rows' l').1 = (performFrom clock fuel rows (.waiting l)).1 := by
  induction fuel generalizing rows l with
  | zero => simp [performFrom] at h
  | succ fuel ih =>
      simp only [performFrom] at h ⊢
      cases hnext : (resume clock () rows l).2 with
      | returned r' =>
          rw [hnext] at h
          have hr : r' = r := by cases fuel <;> simpa [performFrom] using h
          refine ⟨rows, l, rfl, hr ▸ hnext, ?_⟩
          cases fuel <;> rfl
      | lost =>
          rw [hnext] at h
          cases fuel <;> simp [performFrom] at h
      | waiting l' =>
          rw [hnext] at h
          obtain ⟨rows', l'', hcall, hret, hrows⟩ := ih h
          exact ⟨rows', l'', hcall.trans (resume_call hnext).1, hret, hrows⟩

/-- A row that `leaseNext` returns stands in the table under the new owner. -/
theorem perform_leaseNext {clock : Nat} {agentId leaseOwner : String} {leaseMs : Nat}
    (h : (perform clock rows (.leaseNext agentId leaseOwner leaseMs)).2 =
      some (.command (some row))) :
    row ∈ (perform clock rows (.leaseNext agentId leaseOwner leaseMs)).1 ∧
      row.leaseOwner = some leaseOwner := by
  obtain ⟨rows', l, hcall, hret, hrows⟩ := performFrom_last h
  change _ = (perform clock rows (.leaseNext agentId leaseOwner leaseMs)).1 at hrows
  rw [← hrows]
  change l.call = .leaseNext agentId leaseOwner leaseMs at hcall
  cases l <;> simp only [Loc.call, Call.leaseNext.injEq, reduceCtorEq] at hcall <;>
    simp only [resume] at hret ⊢
  case leaseExpire => cases hret
  case leaseGate => split at hret <;> cases hret
  case leasePick => split at hret <;> cases hret
  case leaseUpdate agentId' leaseOwner' leaseMs' now candidate =>
    obtain ⟨-, rfl, -⟩ := hcall
    simp only [Phase.returned.injEq, Ret.command.injEq] at hret
    obtain ⟨old, hold, hcond, rfl⟩ := Table.mem_returning.mp (List.mem_of_mem_head? hret)
    exact ⟨List.mem_map.mpr ⟨old, hold, by simp [hcond]⟩, rfl⟩

theorem getCommandForAgent_eq (hkeys : (rows.map (·.id)).Nodup) (hrow : row ∈ rows) :
    getCommandForAgent rows row.agentId row.id = some row := by
  cases hfound : getCommandForAgent rows row.agentId row.id with
  | none =>
      have hnone := List.find?_eq_none.mp hfound row hrow
      simp at hnone
  | some found =>
      have hmem := List.mem_of_find?_eq_some hfound
      have hid := List.find?_some hfound
      simp only [Bool.decide_and, Bool.and_eq_true, decide_eq_true_eq] at hid
      rw [List.inj_on_of_nodup_map hkeys hmem hrow hid.1]

/-- `completeCommand` settles a command for the owner of its live lease, provided
the sequence is new, and hands out a settled command as it is. -/
theorem perform_completeCommand {clock : Nat} (hkeys : (rows.map (·.id)).Nodup) (hrow : row ∈ rows)
    (howned : row.Owned) {leaseToken : String} (howner : row.leaseOwner = some leaseToken)
    (hlive : row.leaseAfter clock) {sequence : Nat}
    (hnew : row.state.terminal = false → row.lastEventSequence < sequence) (success : Bool)
    (error : Option String) :
    ∃ row', (perform clock rows (.completeCommand row.agentId row.id leaseToken sequence success
        error)).2 = some (.command (some row')) ∧
      row' ∈ (perform clock rows (.completeCommand row.agentId row.id leaseToken sequence success
        error)).1 ∧
      row'.id = row.id ∧
      (row'.state = .completed ∨ row'.state = .failed ∨ row' = row ∧ row.state = .cancelled) := by
  have hread := getCommandForAgent_eq hkeys hrow
  cases hterminal : row.state.terminal with
  | true =>
      -- A command that is terminal already is returned as it is.
      refine ⟨row, ?_, ?_, rfl, ?_⟩
      · simp [perform, performFrom, enter, resume, hread, hterminal]
      · simpa [perform, performFrom, enter, resume, hread, hterminal] using hrow
      · cases hs : row.state <;> simp [hs, AgentCommandState.terminal] at hterminal ⊢
  | false =>
      have hactive : row.state.active := by
        rcases howned (by simp [howner]) with hactive | hsettled
        · exact hactive
        · rw [hterminal] at hsettled
          cases hsettled
      have hheld : row.notHeldBy leaseToken clock = false :=
        AgentCommand.notHeldBy_eq_false.mpr ⟨howner, hlive⟩
      have hsequence : ¬ sequence ≤ row.lastEventSequence := Nat.not_le.mpr (hnew hterminal)
      let cond := sequenceCond row.agentId row.id leaseToken sequence clock
      let set := completeSet sequence success error clock
      have hcond : cond row := by
        simp [cond, sequenceCond, leaseHeld, howner, hlive, hactive, hnew hterminal]
      have hperform : perform clock rows (.completeCommand row.agentId row.id leaseToken sequence
          success error) =
          (Table.update rows cond set, some (.command (Table.returning rows cond set).head?)) := by
        simp [perform, performFrom, enter, resume, hread, hterminal, hheld, hsequence, cond, set]
      have hreturns : set row ∈ Table.returning rows cond set :=
        Table.mem_returning.mpr ⟨row, hrow, hcond, rfl⟩
      -- The update returns the first row it reached; the condition fixes its id.
      obtain ⟨row', hhead⟩ := Option.isSome_iff_exists.mp
        (List.isSome_head?.mpr (List.ne_nil_of_mem hreturns))
      obtain ⟨old, hold, hcondOld, rfl⟩ := Table.mem_returning.mp (List.mem_of_mem_head? hhead)
      have hidOld : old.id = row.id := by
        simp only [cond, sequenceCond, leaseHeld, Bool.decide_and, Bool.and_eq_true,
          decide_eq_true_eq] at hcondOld
        exact hcondOld.1.1
      rw [hperform]
      refine ⟨set old, by rw [hhead], List.mem_map.mpr ⟨old, hold, by simp [hcondOld]⟩, hidOld, ?_⟩
      cases success
      · exact .inr (.inl rfl)
      · exact .inl rfl

end Pluton.Agent
