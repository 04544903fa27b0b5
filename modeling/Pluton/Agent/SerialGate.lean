-- SUMMARY: The serial executor gate: at most one live command per agent.
import Pluton.Agent.Leases

/-!
# One live command per agent

`leaseNext` checks for a live command of the agent, picks the oldest queued one
and leases it, in separate statements. The gate holds in the runs in which no
other lease of the agent is granted between a call's gate check and its update,
and in which no call writes a lease that has already run out.
-/
namespace Pluton.Agent

open Await

/-- The command is leased, acknowledged or running, and its lease ends after `t`. -/
def AgentCommand.live (row : AgentCommand) (agentId : String) (t : Nat) : Prop :=
  row.agentId = agentId ∧ row.state.active ∧ ∃ e, row.leaseExpiresAt = some e ∧ t < date e

/-- At most one command of the agent is live. -/
def SerialGate (agentId : String) (s : State) : Prop :=
  ∀ {k k' : Nat} {row row' : AgentCommand}, s.shared[k]? = some row → s.shared[k']? = some row' →
    row.live agentId s.clock → row'.live agentId s.clock → k = k'

theorem AgentCommand.leaseAfter_iff {row : AgentCommand} {t : Nat} :
    row.leaseAfter t ↔ ∃ e, row.leaseExpiresAt = some e ∧ t < date e := by
  cases hexp : row.leaseExpiresAt with
  | none => simp [leaseAfter, hexp]
  | some e =>
      have hclock : column t < e ↔ t < date e := by
        simp only [date, column]
        omega
      simp [leaseAfter, hexp, hclock]

theorem AgentCommand.leaseAfter_anti {row : AgentCommand} {t t' : Nat} (hle : t ≤ t')
    (h : row.leaseAfter t') : row.leaseAfter t := by
  obtain ⟨e, hexp, hlt⟩ := leaseAfter_iff.mp h
  exact leaseAfter_iff.mpr ⟨e, hexp, Nat.lt_of_le_of_lt hle hlt⟩

/-! ## Conditions on a run -/

/-- The column value of the lease that a statement writes. -/
def Loc.deadline : Loc → Option Nat
  | .leaseUpdate _ _ leaseMs now _ => some (column (now + leaseMs))
  | .eventUpdate _ _ _ _ leaseMs now => some (column (now + leaseMs))
  | .statusUpdate _ _ _ leaseMs now => some (column (now + leaseMs))
  | _ => none

/-- No lease of the agent was granted since call `i` ran its gate check. -/
def Audit.NoneSince (a : Audit) (agentId : String) (i : Nat) : Prop :=
  ∀ g ∈ a.grants.drop (a.gateAt i), g.agentId ≠ agentId

instance (a : Audit) (agentId : String) (i : Nat) : Decidable (a.NoneSince agentId i) :=
  inferInstanceAs (Decidable (∀ g ∈ _, _))

/-- The gate check of a call that is about to grant a lease still stands. -/
def Audit.GateStands (a : Audit) (i : Nat) : Loc → Prop
  | .leaseUpdate agentId _ _ _ _ => a.NoneSince agentId i
  | _ => True

instance (a : Audit) (i : Nat) (l : Loc) : Decidable (a.GateStands i l) := by
  unfold Audit.GateStands
  split <;> infer_instance

/-- A lease is granted only when no other lease of that agent was granted since
the gate check, and no statement writes a lease that has already run out. -/
def GatesStand (a : Audit) (s : State) (label : Label Call Unit) : Prop :=
  match statement s label with
  | some (i, l) => (∀ d ∈ l.deadline, s.clock < date d) ∧ a.GateStands i l
  | none => True

instance (a : Audit) (s : State) (label : Label Call Unit) : Decidable (GatesStand a s label) :=
  show Decidable (match statement s label with
    | some (i, l) => (∀ d ∈ l.deadline, s.clock < date d) ∧ a.GateStands i l
    | none => True) from
  match statement s label with
  | some (i, l) =>
      inferInstanceAs (Decidable ((∀ d ∈ l.deadline, s.clock < date d) ∧ a.GateStands i l))
  | none => .isTrue trivial

/-! ## The invariant -/

section Gate

variable {agentId : String} {start : Nat} {rows : Commands} {a : Audit} {l : Loc} {clock i : Nat}

/-- The command is active and its lease ends after the start of the run, so some
call of the run may still renew it. -/
def AgentCommand.renewable (agentId : String) (start : Nat) (row : AgentCommand) : Prop :=
  row.agentId = agentId ∧ row.state.active ∧ row.leaseAfter start

/-- What a call in flight relies on. A call between its gate check and its update
relies on no renewable command, unless another lease was granted meanwhile. -/
def gateLocal (agentId : String) (start : Nat) (a : Audit) (clock : Nat) (rows : Commands)
    (i : Nat) : Loc → Prop
  | .leaseGate agentId' _ _ now =>
    start ≤ now ∧ now ≤ clock ∧
      (agentId' = agentId → ∀ row ∈ rows, row.renewable agentId start → row.leaseAfter now)
  | .leasePick agentId' _ _ now =>
    start ≤ now ∧ now ≤ clock ∧
      (agentId' = agentId → a.NoneSince agentId i → ∀ row ∈ rows, ¬ row.renewable agentId start)
  | .leaseUpdate agentId' _ _ now candidate =>
    start ≤ now ∧ now ≤ clock ∧
      (agentId' = agentId → a.NoneSince agentId i → ∀ row ∈ rows, ¬ row.renewable agentId start) ∧
      ∃ row ∈ rows, row.id = candidate.id ∧ row.agentId = agentId'
  | .cancelRead _ | .cancelUpdate _ _ _ => True
  | l => start ≤ l.now ∧ l.now ≤ clock

def gatePhase (agentId : String) (start : Nat) (a : Audit) (clock : Nat) (rows : Commands)
    (i : Nat) (_ : Call) : Phase Loc Ret → Prop
  | .waiting l => gateLocal agentId start a clock rows i l
  | _ => True

structure GateShared (agentId : String) (start : Nat) (a : Audit) (clock : Nat)
    (rows : Commands) : Prop where
  keys : (rows.map (·.id)).Nodup
  started : start ≤ clock
  gated : ∀ i, a.gateAt i ≤ a.grants.length
  one : ∀ {k k' : Nat} {row row' : AgentCommand}, rows[k]? = some row → rows[k']? = some row' →
    row.renewable agentId start → row'.renewable agentId start → k = k'

/-- A row that is renewable after a statement was so before, its lease unchanged
or written by the statement, unless the statement granted a lease on it. -/
theorem renewable_of_apply (hlocal : gateLocal agentId start a clock rows i l) {row : AgentCommand}
    (h : (l.apply row).renewable agentId start) :
    l.grants row ∨ (row.renewable agentId start ∧
      ((l.apply row).leaseExpiresAt = row.leaseExpiresAt ∨
        (l.apply row).leaseExpiresAt = l.deadline)) := by
  cases hcond : l.cond row with
  | false =>
      rw [Loc.apply_of_not_cond hcond] at h ⊢
      exact .inr ⟨h, .inl rfl⟩
  | true =>
      obtain ⟨hagent, hactive, hafter⟩ := h
      rw [(l.apply_key row).2] at hagent
      rw [Loc.apply_of_cond hcond] at hactive hafter ⊢
      cases l with
      | leaseUpdate => exact .inl hcond
      | leaseExpire => simp [Loc.set, expireSet, AgentCommandState.active] at hactive
      | cancelUpdate => simp [Loc.set, cancelSet, AgentCommandState.active] at hactive
      | completeUpdate _ _ _ _ success =>
          cases success <;> simp [Loc.set, completeSet, AgentCommandState.active] at hactive
      | ackUpdate =>
          have hstate : row.state.active := by
            simp only [Loc.cond, ackCond, Bool.decide_and, Bool.and_eq_true,
              decide_eq_true_eq] at hcond
            cases hs : row.state <;> simp_all [AgentCommandState.active]
          exact .inr ⟨⟨hagent, hstate, hafter⟩, .inl rfl⟩
      | eventUpdate =>
          simp only [Loc.cond, sequenceCond, leaseHeld, Bool.decide_and, Bool.and_eq_true,
            decide_eq_true_eq] at hcond
          exact .inr ⟨⟨hagent, hcond.2.1, AgentCommand.leaseAfter_anti hlocal.1 hcond.1.2.2.2⟩,
            .inr rfl⟩
      | statusUpdate =>
          simp only [Loc.cond, statusCond, leaseHeld, Bool.decide_and, Bool.and_eq_true,
            decide_eq_true_eq] at hcond
          exact .inr ⟨⟨hagent, hcond.2, AgentCommand.leaseAfter_anti hlocal.1 hcond.1.2.2.2⟩,
            .inr rfl⟩
      | _ => simp [Loc.cond] at hcond

/-- A call whose gate check stands grants a lease only when no command of the
agent is renewable. -/
theorem none_renewable_of_grants (hshared : GateShared agentId start a clock rows)
    (hlocal : gateLocal agentId start a clock rows i l) (hstands : a.GateStands i l)
    {row : AgentCommand} (hrow : row ∈ rows) (hagent : row.agentId = agentId)
    (hgrant : l.grants row) : ∀ row' ∈ rows, ¬ row'.renewable agentId start := by
  cases l with
  | leaseUpdate agentId' leaseOwner leaseMs now candidate =>
      obtain ⟨-, -, hnone, row₀, hrow₀, hid₀, hagent₀⟩ := hlocal
      have hid : row.id = candidate.id := by
        have hcond : row.id = candidate.id ∧ row.state = .queued := by
          simpa [Loc.grants, leaseCond] using hgrant
        exact hcond.1
      have heq : row₀ = row :=
        List.inj_on_of_nodup_map hshared.keys hrow₀ hrow (hid₀.trans hid.symm)
      subst heq
      have hsame : agentId' = agentId := hagent₀.symm.trans hagent
      subst hsame
      exact hnone rfl hstands
  | _ => simp [Loc.grants] at hgrant

/-- At most one renewable command remains after a statement. -/
theorem one_renewable_apply (hshared : GateShared agentId start a clock rows)
    (hlocal : gateLocal agentId start a clock rows i l) (hstands : a.GateStands i l) {k k' : Nat}
    {row row' : AgentCommand} (hk : (rows.map l.apply)[k]? = some row)
    (hk' : (rows.map l.apply)[k']? = some row') (h : row.renewable agentId start)
    (h' : row'.renewable agentId start) : k = k' := by
  simp only [List.getElem?_map, Option.map_eq_some_iff] at hk hk'
  obtain ⟨old, hold, rfl⟩ := hk
  obtain ⟨old', hold', rfl⟩ := hk'
  have hmem := List.mem_of_getElem? hold
  have hmem' := List.mem_of_getElem? hold'
  rcases renewable_of_apply hlocal h with hgrant | ⟨hren, -⟩ <;>
    rcases renewable_of_apply hlocal h' with hgrant' | ⟨hren', -⟩
  · -- Both rows were leased by one statement, so they are the same row.
    cases l with
    | leaseUpdate agentId' leaseOwner leaseMs now candidate =>
        have hid : old.id = candidate.id ∧ old.state = .queued := by
          simpa [Loc.grants, leaseCond] using hgrant
        have hid' : old'.id = candidate.id ∧ old'.state = .queued := by
          simpa [Loc.grants, leaseCond] using hgrant'
        exact Table.position_unique hshared.keys hold hold' (hid.1.trans hid'.1.symm)
    | _ => simp [Loc.grants] at hgrant
  · have hagent : old.agentId = agentId := by rw [← (l.apply_key old).2]; exact h.1
    exact absurd hren' (none_renewable_of_grants hshared hlocal hstands hmem hagent hgrant _ hmem')
  · have hagent' : old'.agentId = agentId := by rw [← (l.apply_key old').2]; exact h'.1
    exact absurd hren (none_renewable_of_grants hshared hlocal hstands hmem' hagent' hgrant' _ hmem)
  · exact hshared.one hold hold' hren hren'

theorem noneSince_record {clock : Nat} {i j : Nat} (hshared : GateShared agentId start a clock rows)
    (hji : j ≠ i) (h : (a.record rows i l).NoneSince agentId j) :
    a.NoneSince agentId j ∧ ∀ g ∈ grantsOf rows i l, g.agentId ≠ agentId := by
  have hgate : (a.record rows i l).gateAt j = a.gateAt j := by
    cases l <;> simp [Audit.record, Function.update_of_ne hji]
  unfold Audit.NoneSince at h
  rw [hgate] at h
  simp only [Audit.record, List.drop_append_of_le_length (hshared.gated j), List.mem_append] at h
  exact ⟨fun g hg => h g (.inl hg), fun g hg => h g (.inr hg)⟩

/-- If no lease of the agent is granted, a table without renewable commands of the
agent stays one. -/
theorem none_renewable_apply (hlocal : gateLocal agentId start a clock rows i l)
    (hgrants : ∀ g ∈ grantsOf rows i l, g.agentId ≠ agentId)
    (hnone : ∀ row ∈ rows, ¬ row.renewable agentId start) :
    ∀ row ∈ rows.map l.apply, ¬ row.renewable agentId start := by
  intro row hrow hren
  obtain ⟨old, hold, rfl⟩ := List.mem_map.mp hrow
  rcases renewable_of_apply hlocal hren with hgrant | ⟨hren', -⟩
  · cases l with
    | leaseUpdate agentId' leaseOwner leaseMs now candidate =>
        refine hgrants ⟨i, old.id, old.agentId, leaseOwner, candidate.attemptCount + 1⟩ ?_
          ((Loc.apply_key _ old).2.symm.trans hren.1)
        exact List.mem_map.mpr ⟨old, List.mem_filter.mpr ⟨hold, hgrant⟩, rfl⟩
    | _ => simp [Loc.grants] at hgrant
  · exact hnone old hold hren'

/-- What another call relies on survives a statement. -/
theorem gateLocal_of_ne {clock i j : Nat} {l l' : Loc}
    (hshared : GateShared agentId start a clock rows)
    (hlocal : gateLocal agentId start a clock rows i l) (htimely : ∀ d ∈ l.deadline, clock < date d)
    (hstands : a.GateStands i l) (hji : j ≠ i) (h : gateLocal agentId start a clock rows j l') :
    gateLocal agentId start (a.record rows i l) clock (rows.map l.apply) j l' := by
  cases l' with
  | leaseGate agentId' leaseOwner leaseMs now =>
      refine ⟨h.1, h.2.1, ?_⟩
      rintro rfl row hrow hren
      obtain ⟨old, hold, rfl⟩ := List.mem_map.mp hrow
      -- The lease of a row is the one it had, or one written now that ends later.
      have hdeadline : (l.apply old).leaseExpiresAt = l.deadline →
          (l.apply old).leaseAfter now := by
        intro heq
        obtain ⟨e, hexp, -⟩ := AgentCommand.leaseAfter_iff.mp hren.2.2
        have hlt := htimely e (heq ▸ hexp)
        exact AgentCommand.leaseAfter_iff.mpr ⟨e, hexp, Nat.lt_of_le_of_lt h.2.1 hlt⟩
      rcases renewable_of_apply hlocal hren with hgrant | ⟨hren', hsame | hwritten⟩
      · apply hdeadline
        rw [Loc.apply_of_cond (Loc.cond_of_grants hgrant)]
        cases l <;> simp [Loc.grants] at hgrant
        rfl
      · have hafter := h.2.2 rfl old hold hren'
        unfold AgentCommand.leaseAfter at hafter ⊢
        rw [hsame]
        exact hafter
      · exact hdeadline hwritten
  | leasePick agentId' leaseOwner leaseMs now =>
      refine ⟨h.1, h.2.1, ?_⟩
      rintro rfl hnone
      obtain ⟨hnone, hgrants⟩ := noneSince_record hshared hji hnone
      exact none_renewable_apply hlocal hgrants (h.2.2 rfl hnone)
  | leaseUpdate agentId' leaseOwner leaseMs now candidate =>
      obtain ⟨hstart, hclock, hrows, row, hrow, hid, hagent⟩ := h
      refine ⟨hstart, hclock, ?_, l.apply row, List.mem_map_of_mem hrow,
        (l.apply_key row).1.trans hid, (l.apply_key row).2.trans hagent⟩
      rintro rfl hnone
      obtain ⟨hnone, hgrants⟩ := noneSince_record hshared hji hnone
      exact none_renewable_apply hlocal hgrants (hrows rfl hnone)
  | _ => exact h

theorem apply_read (hread : l.cond = fun _ => false) (rows : Commands) :
    rows.map l.apply = rows := by
  conv_rhs => rw [← List.map_id rows]
  apply List.map_congr_left
  intro row _
  exact Loc.apply_of_not_cond (congrFun hread row)

theorem gatePhase_resume (c : Call) (hlocal : gateLocal agentId start a clock rows i l) :
    gatePhase agentId start (a.record rows i l) clock (rows.map l.apply) i c
      (resume clock () rows l).2 := by
  cases l with
  | leaseExpire agentId' leaseOwner leaseMs now =>
      refine ⟨hlocal.1, hlocal.2, ?_⟩
      rintro rfl row hrow hren
      obtain ⟨old, hold, rfl⟩ := List.mem_map.mp hrow
      cases hcond : (Loc.leaseExpire agentId' leaseOwner leaseMs now).cond old with
      | true =>
          rw [Loc.apply_of_cond hcond] at hren
          simp [Loc.set, AgentCommand.renewable, expireSet, AgentCommandState.active] at hren
      | false =>
          rw [Loc.apply_of_not_cond hcond] at hren ⊢
          -- An active command of the agent that was not expired has a later lease.
          obtain ⟨e, hexp, -⟩ := AgentCommand.leaseAfter_iff.mp hren.2.2
          have huntil : old.leaseUntil now = false := by
            simpa [Loc.cond, expireCond, hren.1, hren.2.1] using hcond
          simp only [AgentCommand.leaseUntil, hexp, decide_eq_false_iff_not, Nat.not_le] at huntil
          simp [AgentCommand.leaseAfter, hexp, huntil]
  | leaseGate agentId' leaseOwner leaseMs now =>
      rw [apply_read rfl]
      simp only [resume]
      split
      · trivial
      · rename_i hnone
        refine ⟨hlocal.1, hlocal.2.1, ?_⟩
        rintro rfl - row hrow hren
        have hafter := hlocal.2.2 rfl row hrow hren
        have hnot := List.find?_eq_none.mp hnone row hrow
        simp [hren.1, hren.2.1, hafter] at hnot
  | leasePick agentId' leaseOwner leaseMs now =>
      rw [apply_read rfl]
      simp only [resume]
      split
      · trivial
      · rename_i candidate hpick
        obtain ⟨hmem, hcond⟩ := Table.mem_of_firstBy hpick
        simp only [Bool.decide_and, Bool.and_eq_true, decide_eq_true_eq] at hcond
        refine ⟨hlocal.1, hlocal.2.1, ?_, candidate, hmem, rfl, hcond.1⟩
        rintro rfl hnone
        refine hlocal.2.2 rfl ?_
        simpa [Audit.NoneSince, Audit.record, grantsOf] using hnone
  | _ =>
      simp only [resume]
      (repeat' split) <;> trivial

theorem gated_record {i : Nat} (h : ∀ j, a.gateAt j ≤ a.grants.length) (j : Nat) :
    (a.record rows i l).gateAt j ≤ (a.record rows i l).grants.length := by
  have hj := h j
  by_cases hji : j = i
  · subst hji
    cases l <;> simp [Audit.record] <;> omega
  · cases l <;> simp [Audit.record, Function.update_of_ne hji] <;> omega

theorem gate_rely (agentId : String) (start : Nat) :
    Rely store observe GatesStand (GateShared agentId start) (gatePhase agentId start) where
  tick := by
    intro a s d _ hshared
    refine ⟨{ hshared with started := Nat.le_add_right_of_le hshared.started }, ?_⟩
    intro i c ph h
    cases ph with
    | waiting l =>
        have hclock : ∀ {now : Nat}, now ≤ s.clock → now ≤ s.clock + d := fun h => by omega
        cases l with
        | leaseGate => exact ⟨h.1, hclock h.2.1, h.2.2⟩
        | leasePick => exact ⟨h.1, hclock h.2.1, h.2.2⟩
        | leaseUpdate => exact ⟨h.1, hclock h.2.1, h.2.2⟩
        | cancelRead => trivial
        | cancelUpdate => trivial
        | _ => exact ⟨h.1, hclock h.2⟩
    | returned r => trivial
    | lost => trivial
  call := by
    intro a s c _ hshared
    refine ⟨hshared, ?_, fun _ h => h⟩
    cases c with
    | cancelCommand => trivial
    | _ => exact ⟨hshared.started, Nat.le_refl _⟩
  crash := by
    intro a s _ hshared
    refine ⟨hshared, ?_⟩
    intro i c ph h
    cases ph with
    | waiting l => trivial
    | returned r => trivial
    | lost => trivial
  idle := by
    intro a s i e hidle _ hshared
    -- a resumption that changes nothing runs no statement
    have hobs : observe a s (.resume i e) = a := by
      rcases step_cases s (.resume i e) with ⟨i', c, l, heq, htask, hstmt, hstep⟩ | ⟨hstmt, -⟩
      · cases heq
        have hlt := (List.getElem?_eq_some_iff.mp htask).1
        have hphase := congrArg (fun s : State => s.tasks[i]?) (hstep.symm.trans hidle)
        simp only [List.getElem?_set_self hlt, htask, Option.some.injEq, Task.mk.injEq,
          true_and] at hphase
        have hcall := resume_call hphase
        cases l <;> simp only [resume] at hphase <;> (repeat' split at hphase) <;> cases hphase
      · rw [observe, hstmt]
    rw [hobs]
    exact ⟨hshared, fun h => h⟩
  resume := by
    intro a s i e c l htask hok hshared hlocal
    have hstmt : statement s (.resume i e) = some (i, l) := by simp [statement, htask]
    have hobs : observe a s (.resume i e) = a.record s.shared i l := by simp [observe, hstmt]
    rw [GatesStand, hstmt] at hok
    rw [hobs, show store.resume s.clock e s.shared l = resume s.clock e s.shared l from rfl,
      resume_rows]
    refine ⟨?_, gatePhase_resume c hlocal, ?_⟩
    · exact
        { keys := keys_apply l hshared.keys
          started := hshared.started
          gated := gated_record hshared.gated
          one := one_renewable_apply hshared hlocal hok.2 }
    · intro j c' ph hji _ h
      cases ph with
      | waiting l' => exact gateLocal_of_ne hshared hlocal hok.1 hok.2 hji h
      | returned r => trivial
      | lost => trivial

end Gate

/-- The gate holds in every state of every run that starts with at most one live
command of the agent and in which gate checks stand and leases are written in
time. -/
theorem serial_gate {agentId : String} {rows : Commands} {clock : Nat}
    (hkeys : (rows.map (·.id)).Nodup) (hstart : SerialGate agentId ⟨clock, rows, []⟩)
    {ls : List (Label Call Unit)}
    (hmeets : store.Meets observe GatesStand {} ⟨clock, rows, []⟩ ls) :
    ∀ pre post, ls = pre ++ post → SerialGate agentId (store.run ⟨clock, rows, []⟩ pre) := by
  rintro pre post rfl k k' row row' hk hk' hlive hlive'
  have hinit : Holds (GateShared agentId clock) (gatePhase agentId clock) {}
      (⟨clock, rows, []⟩ : State) := by
    refine ⟨⟨hkeys, Nat.le_refl _, by simp, ?_⟩, by simp⟩
    intro j j' r r' hj hj' hren hren'
    exact hstart hj hj' ⟨hren.1, hren.2.1, AgentCommand.leaseAfter_iff.mp hren.2.2⟩
      ⟨hren'.1, hren'.2.1, AgentCommand.leaseAfter_iff.mp hren'.2.2⟩
  have hholds := (gate_rely agentId clock).holds_run hmeets.of_append hinit
  have hren : ∀ {r : AgentCommand},
      r.live agentId (store.run ⟨clock, rows, []⟩ pre).clock → r.renewable agentId clock :=
    fun hr => ⟨hr.1, hr.2.1, AgentCommand.leaseAfter_anti hholds.shared.started
      (AgentCommand.leaseAfter_iff.mpr hr.2.2)⟩
  exact hholds.shared.one hk hk' (hren hlive) (hren hlive')

/-- Two queued commands of one agent. -/
def twoQueued : State :=
  ⟨0, [{ id := "first", agentId := "agent" }, { id := "second", agentId := "agent" }], []⟩

theorem twoQueued_serial : SerialGate "agent" twoQueued := by
  intro k k' row row' hk _ hlive _
  have hmem : row ∈ twoQueued.shared := List.mem_of_getElem? hk
  simp only [twoQueued, List.mem_cons, List.not_mem_nil, or_false] at hmem
  rcases hmem with rfl | rfl <;> simp [AgentCommand.live, AgentCommandState.active] at hlive

/-- Two polls one after the other: the second finds the first one's command live. -/
theorem serial_gate_of_polls :
    SerialGate "agent" (store.run twoQueued
      [.call (.leaseNext "agent" "token-0" 60000), .resume 0 (), .resume 0 (), .resume 0 (),
        .resume 0 (), .call (.leaseNext "agent" "token-1" 60000), .resume 1 (), .resume 1 ()]) :=
  serial_gate (by decide) twoQueued_serial (by decide) _ [] rfl

/-- Two overlapping polls: both pass the gate before either leases, and the second
picks after the first has leased. -/
def overlappingPolls : List (Label Call Unit) :=
  [.call (.leaseNext "agent" "token-0" 60000), .call (.leaseNext "agent" "token-1" 60000),
    .resume 0 (), .resume 0 (), .resume 1 (), .resume 1 (), .resume 0 (), .resume 0 (),
    .resume 1 (), .resume 1 ()]

/-- Both commands of the agent are live after the overlapping polls. -/
theorem overlapping_polls_lease_twice :
    SerialGate "agent" twoQueued ∧ ¬ SerialGate "agent" (store.run twoQueued overlappingPolls) := by
  refine ⟨twoQueued_serial, fun h => ?_⟩
  have heq : (0 : Nat) = 1 :=
    @h 0 1 _ _ rfl rfl ⟨rfl, rfl, 60, rfl, by decide⟩ ⟨rfl, rfl, 60, rfl, by decide⟩
  exact absurd heq (by decide)

end Pluton.Agent
