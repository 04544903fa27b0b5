-- SUMMARY: The request, the approval and the end of an MCP action, and all that a step may change.
import Pluton.Mcp.Steps

/-!
# Changes

`Change` lists what a step of the gateway may do to the actions: nothing but age them, add a
requested one, enter the service of an approved one, record an outcome, or start anew.
-/
namespace Pluton.Mcp

open EStateM

variable {env : Env} {w w' w₁ : World} {row : ActionRow} {id actor confirmationHash : String}

/-! ## Requests -/

/-- The row fits into the table: its keys are new, its plan is free and the limits allow it. -/
structure Fits (db : Database) (row : ActionRow) : Prop where
  id : ∀ other ∈ db.actions, other.id ≠ row.id
  key : ∀ other ∈ db.actions,
    ¬(other.tokenId = row.tokenId ∧ other.args.idempotencyKey = row.args.idempotencyKey)
  plan : ∀ other ∈ db.busy, other.args.planId ≠ row.args.planId
  perToken : (db.busy.filter (·.tokenId == row.tokenId)).length < tokenActions
  total : db.busy.length < allActions

/-- The row is a request that was admitted, bound to its arguments and to
the state of the resources. -/
structure Requested (env : Env) (w w' : World) (row : ActionRow) : Prop where
  pending : row.status = .pendingApproval
  admitted : ∃ token, Admitted env w w' row.args token ∧ token.id = row.tokenId ∧
    token.revision = row.tokenRevision
  argumentsHash : row.argumentsHash = env.hashArguments row.args
  stateHash : stateHash env w.database.resources row.args = some row.stateHash

/-- From `w` to `w'` the row was added. -/
structure Adds (env : Env) (w w' : World) (row : ActionRow) : Prop where
  aged : ∃ w₁, Ages w w₁ ∧ Fits w₁.database row ∧
    w'.database = { w₁.database with actions := w₁.database.actions ++ [row] }
  requested : Requested env w w' row
  running : w'.running = w.running
  entered : w'.entered = w.entered

theorem wp_insertAction (h : Ages w w₁) :
    wp (insertAction row)
      (fun _ w' => (∀ other ∈ w₁.database.actions, other.id ≠ row.id) ∧
        w' = { w₁ with database := { w₁.database with actions := w₁.database.actions ++ [row] } })
      (fun _ => Ages w) w₁ := by
  unfold insertAction
  rw [wp_bind, wp_get, wp_bind, wp_refuseIf]
  refine ⟨fun _ => h, fun hnone => ⟨fun other hother heq => ?_, rfl⟩⟩
  have hsome : (w₁.database.action row.id).isSome = true := by
    unfold Database.action
    rw [List.find?_isSome]
    exact ⟨other, hother, beq_iff_eq.mpr heq⟩
  rw [hsome] at hnone
  cases hnone

theorem wp_submit (nativeTokenId : Option String) (args : ActionArgs) (hids : Ids w) :
    wp (submit env nativeTokenId id args)
      (fun row w' => nativeTokenId = some row.tokenId ∧
        row.args.idempotencyKey = args.idempotencyKey ∧
        row.argumentsHash = env.hashArguments args ∧
        (Ages w w' ∧ row ∈ w'.database.actions ∨ row.id = id ∧ row.args = args ∧ Adds env w w' row))
      (fun _ => Ages w) w := by
  unfold submit
  refine wp.bind ((wp_admitRequest nativeTokenId args none).mono (fun _ _ h => h) fun _ _ h =>
    h.ages) fun token w₁ h₁ => ?_
  obtain ⟨h₁, hadmitted, hnative, -⟩ := h₁
  rw [wp_transaction]
  refine wp_expire_bind (h₁.ages.ids hids) fun w₂ h₂ => ?_
  have hages := h₁.ages.trans h₂
  have hback : ∀ {w₃ : World}, Ages w w₃ → Ages w { w₃ with database := w₁.database } := by
    intro w₃ h
    rw [h₁.database]
    exact h.rollback
  rw [wp_bind, wp_get]
  split
  -- the key was used before, and the row of then is the answer
  · next old hold =>
      have hkeys := List.find?_some hold
      rw [Bool.and_eq_true, beq_iff_eq, beq_iff_eq] at hkeys
      rw [wp_bind, wp_refuseIf]
      refine ⟨fun _ => hback hages, fun hhash => ⟨?_, hkeys.2, by simpa using hhash, ?_⟩⟩
      · rw [hnative, hkeys.1]
      · exact .inl ⟨hages, List.mem_of_find?_eq_some hold⟩
  -- a new action, within the limits on pending ones
  · next hnew =>
      rw [wp_bind, wp_refuseIf]
      refine ⟨fun _ => hback hages, fun hlimits => ?_⟩
      rw [Bool.or_eq_false_iff, decide_eq_false_iff_not, decide_eq_false_iff_not, Nat.not_le,
        Nat.not_le] at hlimits
      rw [wp_bind, wp_refuseIf]
      refine ⟨fun _ => hback hages, fun hplan => ?_⟩
      refine wp.bind ((wp_snapshot args token.id id).mono (fun _ _ h => h) fun _ _ h =>
        hback (hages.trans h.ages))
        fun hash w₃ h₃ => ?_
      obtain ⟨h₃, hhash⟩ := h₃
      rw [wp_bind, wp_now, wp_bind, wp_now]
      have hread : Reads w₃ { w₃ with reads := w₃.reads + 1 + 1 } :=
        ⟨rfl, rfl, rfl, Nat.le_add_right w₃.reads 2⟩
      have hall := hages.trans (h₃.trans hread).ages
      refine wp.bind ((wp_insertAction hall).mono (fun _ _ h => h) fun _ _ h =>
        hback h) fun _ w₄ h₄ => ?_
      obtain ⟨hfresh, rfl⟩ := h₄
      refine ⟨hnative, rfl, rfl, .inr ⟨rfl, rfl, ⟨_, hall, ?_, rfl⟩, ?_,
        hall.running, hall.entered⟩⟩
      · have hsame : w₃.database = w₂.database := h₃.database
        refine ⟨hfresh, fun other hother hkeys => ?_, fun other hother heq => ?_, ?_, ?_⟩
        · dsimp only at hother hkeys
          rw [hsame] at hother
          have hfind := List.find?_eq_none.mp hnew other hother
          rw [hkeys.1, hkeys.2] at hfind
          simp at hfind
        · dsimp only at hother heq
          rw [hsame] at hother
          have hfind := List.any_eq_false.mp hplan other hother
          rw [heq] at hfind
          simp at hfind
        · dsimp only
          rw [hsame]
          exact hlimits.1
        · dsimp only
          rw [hsame]
          exact hlimits.2
      · refine ⟨rfl, ⟨token, hadmitted.widen rfl rfl (Nat.le_refl _) ?_, rfl, rfl⟩, rfl, ?_⟩
        · exact Nat.le_trans h₂.le (h₃.trans hread).le
        · dsimp only
          rw [← hages.resources]
          exact hhash

/-! ## Approvals -/

/-- The action is pending and not expired, the approval is not a token's and names the hash of the
arguments, the token is as it was at the request, and so is the state of the resources. -/
structure Approved (env : Env) (w w' : World) (id actor confirmationHash : String)
    (row : ActionRow) : Prop where
  mem : row ∈ w.database.actions
  id_eq : row.id = id
  pending : row.status = .pendingApproval
  actor : "mcp-token:".isPrefixOf actor = false
  confirmed : confirmationHash = row.argumentsHash
  unexpired : ∃ n, w.reads ≤ n ∧ n < w'.reads ∧ env.clock n < row.expiresAt
  admitted : ∃ token, Admitted env w w' row.args token ∧ token.id = row.tokenId ∧
    token.revision = row.tokenRevision
  stateHash : stateHash env w.database.resources row.args = some row.stateHash

theorem Keeps.pending {s t : Status} (h : Keeps s t) (ht : t = .pendingApproval) :
    s = .pendingApproval := by
  unfold Keeps at h
  subst ht
  simp_all

/-- What is approved after ageing was to be approved before. -/
theorem Approved.of_ages (h : Ages w w₁) (ha : Approved env w₁ w' id actor confirmationHash row) :
    ∃ old, Approved env w w' id actor confirmationHash old ∧
      old.toActionInputs = row.toActionInputs := by
  obtain ⟨old, hold, hmoves⟩ := h.actions.exists_before ha.mem
  have hinputs := hmoves.inputs
  obtain ⟨n, hle, hlt, hn⟩ := ha.unexpired
  obtain ⟨token, hadmitted, hid, hrevision⟩ := ha.admitted
  have hargs : row.args = old.args := congrArg ActionInputs.args hinputs
  refine ⟨old, ⟨hold, ?_, hmoves.status.pending ha.pending, ha.actor, ?_,
    ⟨n, Nat.le_trans h.le hle, hlt, ?_⟩, ⟨token, ?_, ?_, ?_⟩, ?_⟩,
    hinputs.symm⟩
  · exact (congrArg ActionInputs.id hinputs).symm.trans ha.id_eq
  · exact ha.confirmed.trans (congrArg ActionInputs.argumentsHash hinputs)
  · rw [← congrArg ActionInputs.expiresAt hinputs]
    exact hn
  · rw [← hargs]
    exact hadmitted.widen h.tokens h.policy h.le (Nat.le_refl _)
  · exact hid.trans (congrArg ActionInputs.tokenId hinputs)
  · exact hrevision.trans (congrArg ActionInputs.tokenRevision hinputs)
  · rw [← hargs, ← congrArg ActionInputs.stateHash hinputs, ← h.resources]
    exact ha.stateHash

/-- From `w` to `w'` an approved action was claimed. -/
structure Claims (env : Env) (w w' : World) (id actor confirmationHash : String) : Prop where
  approved : ∃ row, Approved env w w' id actor confirmationHash row
  ages : Ages w w'
  executing : ∃ row ∈ w'.database.actions, row.id = id ∧ row.status = .executing

/-- `UPDATE .. WHERE id=? AND status='pending_approval'`: the row is under way. -/
theorem wp_claimRow {set : ActionRow → ActionRow}
    (hset : ∀ row, (set row).toActionInputs = row.toActionInputs ∧ (set row).status = .executing)
    (hmem : row ∈ w.database.actions) (hpending : row.status = .pendingApproval)
    (hid : row.id = id) :
    wp (updateActions (fun row => row.id == id && row.status == .pendingApproval) set)
      (fun _ w' => Ages w w' ∧ ∃ row' ∈ w'.database.actions,
        row'.id = id ∧ row'.status = .executing) (fun _ _ => False) w := by
  rw [wp_updateActions]
  refine ⟨ages_update fun other _ hcond => ⟨(hset other).1, ?_⟩, set row, ?_, ?_, (hset row).2⟩
  · rw [Bool.and_eq_true, beq_iff_eq, beq_iff_eq] at hcond
    exact .inr (.inl ⟨hcond.2, .inr (.inr (hset other).2)⟩)
  · refine Table.mem_update.mpr ⟨row, hmem, if_pos ?_⟩
    simp [hid, hpending]
  · rw [← hid]
    exact congrArg ActionInputs.id (hset row).1

theorem wp_claim (hids : Ids w) :
    wp (claim env id actor confirmationHash)
      (fun row w' => row.id = id ∧ Claims env w w' id actor confirmationHash)
      (fun _ => Ages w) w := by
  unfold claim
  rw [wp_transaction]
  refine wp_expire_bind hids fun w₁ h₁ => ?_
  rw [wp_bind, wp_get]
  split
  · exact h₁.rollback
  · next row hfound =>
      obtain ⟨hmem, hid⟩ := action_found hfound
      rw [wp_bind, wp_refuseIf]
      refine ⟨fun _ => h₁.rollback, fun hpending => ?_⟩
      rw [wp_bind, wp_refuseIf]
      refine ⟨fun _ => h₁.rollback, fun hconfirmed => ?_⟩
      rw [Bool.or_eq_false_iff, bne_eq_false_iff_eq] at hconfirmed
      rw [wp_bind, wp_refuseIf]
      refine ⟨fun _ => h₁.rollback, fun _ => ?_⟩
      -- a refusal rolls the transaction back, so the rows have aged at most
      have hback : ∀ {w₂ : World}, Reads w₁ w₂ →
          Ages w { w₂ with database := w.database } := fun h => (h₁.trans h.ages).rollback
      refine wp.bind ((wp_active row.tokenId).mono (fun _ _ h => h) fun _ _ h =>
        hback h) fun token w₂ h₂ => ?_
      obtain ⟨h₂, hactive⟩ := h₂
      refine wp.bind ((wp_admitRequest (some token.id) row.args (some row.tokenRevision)).mono
        (fun _ _ h => h)
        fun _ _ h => hback (h₂.trans h)) fun token' w₃ h₃ => ?_
      obtain ⟨h₃, hadmitted, hsame, hrevision⟩ := h₃
      refine wp.bind ((wp_snapshot row.args token.id row.id).mono (fun _ _ h => h)
        fun _ _ h => hback ((h₂.trans h₃).trans h)) fun hash w₄ h₄ => ?_
      obtain ⟨h₄, hhash⟩ := h₄
      have h₁₄ := (h₂.trans h₃).trans h₄
      rw [wp_bind, wp_refuseIf]
      refine ⟨fun _ => hback h₁₄, fun hunchanged => ?_⟩
      rw [wp_bind, wp_now]
      have h₅ : Reads w₁ { w₄ with reads := w₄.reads + 1 } :=
        h₁₄.trans ⟨rfl, rfl, rfl, Nat.le_succ _⟩
      rw [wp_bind, wp_refuseIf]
      refine ⟨fun _ => hback h₅, fun hunexpired => ?_⟩
      -- the token is checked again before the row is taken
      refine wp.bind ((wp_admitRequest (some token.id) row.args (some row.tokenRevision)).mono
        (fun _ _ h => h)
        fun _ _ h => hback (h₅.trans h)) fun _ w₆ h₆ => ?_
      rw [wp_bind, wp_now]
      have h₇ : Reads w₁ { w₆ with reads := w₆.reads + 1 } :=
        (h₅.trans h₆.1).trans ⟨rfl, rfl, rfl, Nat.le_succ _⟩
      have hpending' : row.status = .pendingApproval := by simpa using hpending
      have hmem' : row ∈ ({ w₆ with reads := w₆.reads + 1 } : World).database.actions := by
        rw [h₇.database]
        exact hmem
      refine wp.bind ((wp_claimRow ?_ hmem' hpending' hid).mono (fun _ _ h => h) fun _ _ =>
        False.elim) fun _ last hlast => ?_
      · exact fun _ => ⟨rfl, rfl⟩
      obtain ⟨hages, hexecuting⟩ := hlast
      have hall := h₇.ages.trans hages
      -- what was checked at different times, put together at the last one
      have happroved : Approved env w₁ last id actor confirmationHash row := by
        refine ⟨hmem, hid, hpending', hconfirmed.1, hconfirmed.2, ⟨w₄.reads, h₁₄.le, ?_, ?_⟩,
          ⟨token', ?_, ?_, ?_⟩, ?_⟩
        · exact Nat.lt_of_lt_of_le (Nat.lt_succ_self _)
            (Nat.le_trans h₆.1.le (Nat.le_trans (Nat.le_succ _) hages.le))
        · simpa using hunexpired
        · refine hadmitted.widen (congrArg Database.tokens h₂.database)
            (congrArg Database.policy h₂.database) h₂.le ?_
          exact Nat.le_trans h₄.le (Nat.le_trans (Nat.le_succ _)
            (Nat.le_trans h₆.1.le (Nat.le_trans (Nat.le_succ _) hages.le)))
        · rw [← Option.some.inj hsame]
          exact token_id hactive.found
        · exact hrevision row.tokenRevision rfl
        · rw [← bne_eq_false_iff_eq.mp hunchanged, ← hhash, (h₂.trans h₃).database]
      obtain ⟨old, hold, -⟩ := happroved.of_ages h₁
      exact ⟨hid, ⟨old, hold⟩, h₁.trans hall, hexecuting⟩

/-! ## Changes -/

/-- The outcome of an action under way, if it could be recorded. -/
def Records (id : String) (rows rows' : List ActionRow) : Prop :=
  rows' = rows ∨ ∃ set : ActionRow → ActionRow, rows' = Table.update rows (·.id == id) set ∧
    ∀ row, (set row).toActionInputs = row.toActionInputs ∧ ((set row).status = .dispatched ∨
      (set row).status = .uncertain)

/-- What a step may change. -/
inductive Change (env : Env) (w : World) : Label → World → Prop
  | aged {l : Label} {w' : World} (actions : Moved Keeps w.database.actions w'.database.actions)
      (running : w'.running = w.running) (entered : w'.entered = w.entered) : Change env w l w'
  | submitted {nativeTokenId : Option String} {w' : World} {row : ActionRow}
      (adds : Adds env w w' row) :
      Change env w (.submit nativeTokenId row.id row.args) w'
  | approved {id actor confirmationHash : String} {w' : World} {claimed : Claimed}
      (hid : claimed.row.id = id)
      (claims : Claims env w { w' with running := w.running,
                                       entered := w.entered } id actor confirmationHash)
      (running : w'.running = w.running ++ [claimed]) (entered : w'.entered = w.entered ++ [id]) :
      Change env w (.approve id actor confirmationHash) w'
  | settled {i : Nat} {outcome : Outcome} {first second : Bool} {claimed : Claimed} {w' : World}
      (hclaimed : w.running[i]? = some claimed)
      (records : Records claimed.row.id w.database.actions w'.database.actions)
      (running : w'.running = w.running.eraseIdx i) (entered : w'.entered = w.entered) :
      Change env w (.settle i outcome first second) w'
  | restarted {l : Label} {w' : World}
      (actions : Moved Leads w.database.actions w'.database.actions)
      (running : w'.running = []) (entered : w'.entered = w.entered) : Change env w l w'

theorem Ages.change {l : Label} (h : Ages w w') : Change env w l w' :=
  .aged h.actions h.running h.entered

theorem wp_approve (hids : Ids w) :
    wp (approve env id actor confirmationHash) (fun _ =>
      Change env w (.approve id actor confirmationHash))
      (fun _ => Change env w (.approve id actor confirmationHash)) w := by
  unfold approve
  refine wp_expire_bind hids fun w₁ h₁ => ?_
  refine wp.bind ((wp_claim (h₁.ids hids)).mono (fun _ _ h => h) fun _ _ h =>
    (h₁.trans h).change) fun row w₂ h₂ => ?_
  obtain ⟨hid, happroved, hages, hexecuting⟩ := h₂
  rw [wp_modify]
  obtain ⟨_, happroved⟩ := happroved
  obtain ⟨old, hold, -⟩ := happroved.of_ages h₁
  have hall := h₁.trans hages
  refine @Change.approved env w id actor confirmationHash _ ⟨row, actor⟩ hid ⟨⟨old, hold.mem,
    hold.id_eq, hold.pending, hold.actor, hold.confirmed, hold.unexpired, ?_, hold.stateHash⟩,
    ⟨hall.actions, hall.others, rfl, rfl, hall.le⟩, hexecuting⟩ ?_ ?_
  · obtain ⟨token, hadmitted, hrest⟩ := hold.admitted
    exact ⟨token, hadmitted.widen rfl rfl (Nat.le_refl _) (Nat.le_refl _), hrest⟩
  · dsimp only
    rw [hall.running]
  · dsimp only
    rw [hall.entered, hid]

/-! ## Outcomes -/

theorem wp_complete {commits : Bool} {status : Status} {code : String} {resultId : Option String}
    (hstatus : status = .dispatched ∨ status = .uncertain) :
    wp (complete env commits row status code resultId)
      (fun _ w' => Records row.id w.database.actions w'.database.actions ∧ w'.running = w.running ∧
        w'.entered = w.entered)
      (fun _ w' => w'.database = w.database ∧ w'.running = w.running ∧
        w'.entered = w.entered) w := by
  unfold complete
  rw [wp_transaction, wp_bind, wp_now, wp_bind, wp_refuseIf]
  refine ⟨fun _ => ⟨rfl, rfl, rfl⟩, fun _ => ?_⟩
  rw [wp_updateActions]
  exact ⟨.inr ⟨_, rfl, fun _ => ⟨rfl, hstatus⟩⟩, rfl, rfl⟩

theorem wp_settle (i : Nat) (outcome : Outcome) (first second : Bool) :
    wp (settle env i outcome first second) (fun _ => Change env w (.settle i outcome first second))
      (fun _ => Change env w (.settle i outcome first second)) w := by
  unfold settle
  rw [wp_bind, wp_get]
  split
  · exact (Ages.refl w).change
  · next claimed hclaimed =>
      rw [wp_bind, wp_modify, wp_bind, wp_observe]
      have hlast : ∀ w₁ w₂ : World, w₁.database = w.database → w₁.running = w.running.eraseIdx i →
          w₁.entered = w.entered →
          Records claimed.row.id w₁.database.actions w₂.database.actions → w₂.running = w₁.running →
          w₂.entered = w₁.entered →
          Change env w (.settle i outcome first second) w₂ := by
        intro w₁ w₂ hdatabase hrunning hentered hrecords hrunning' hentered'
        rw [hdatabase] at hrecords
        exact .settled hclaimed hrecords (hrunning'.trans hrunning) (hentered'.trans hentered)
      have hsecond : ∀ w₁ : World, w₁.database = w.database → w₁.running = w.running.eraseIdx i →
          w₁.entered = w.entered →
          wp (complete env second claimed.row .uncertain
            "domain_failure_requires_reconciliation" none)
            (fun _ => Change env w (.settle i outcome first second))
            (fun _ => Change env w (.settle i outcome first second)) w₁ := by
        intro w₁ hdatabase hrunning hentered
        refine (wp_complete (.inr rfl)).mono (fun _ w₂ h =>
          hlast w₁ w₂ hdatabase hrunning hentered h.1 h.2.1 h.2.2) fun _ w₂ h => ?_
        exact hlast w₁ w₂ hdatabase hrunning hentered
          (.inl (congrArg Database.actions h.1)) h.2.1 h.2.2
      split
      · exact hsecond { w with running := w.running.eraseIdx i } rfl rfl rfl
      · refine (wp_complete (.inl rfl)).mono (fun _ w₂ h => ?_) fun _ w₂ h =>
          hsecond w₂ h.1 h.2.1 h.2.2
        exact hlast { w with running := w.running.eraseIdx i } w₂ rfl rfl rfl h.1 h.2.1 h.2.2

/-! ## Restarts -/

theorem wp_restart (hids : Ids w) :
    wp (restart env) (fun _ w' =>
      Moved Leads w.database.actions w'.database.actions ∧ w'.running = [] ∧ w'.entered = w.entered)
      (fun _ _ => False) w := by
  unfold restart recoverInterrupted
  rw [wp_bind, wp_modify, wp_transaction]
  have hids' : Ids { w with running := [] } := hids
  refine wp_expire_bind hids' fun w₁ h₁ => ?_
  rw [wp_updateActions]
  refine ⟨?_, h₁.running, h₁.entered⟩
  refine h₁.actions.leads.trans (fun hst htu => hst.trans htu)
    (moved_update (fun s => (keeps_refl s).leads) ?_)
  intro row _ hcond
  refine ⟨rfl, ?_⟩
  rw [beq_iff_eq.mp hcond]
  exact .inr (.inr (.inl rfl))

/-! ## Tokens and resources -/

/-- Neither the actions nor their approvals are touched. -/
def Elsewhere (w w' : World) : Prop :=
  w'.database.actions = w.database.actions ∧ w'.running = w.running ∧ w'.entered = w.entered

instance : Std.Refl Elsewhere := ⟨fun _ => ⟨rfl, rfl, rfl⟩⟩

instance : IsTrans World Elsewhere :=
  ⟨fun _ _ _ h h' => ⟨h'.1.trans h.1, h'.2.1.trans h.2.1, h'.2.2.trans h.2.2⟩⟩

namespace Elsewhere

theorem now : Within Elsewhere (now env) := fun _ => ⟨rfl, rfl, rfl⟩

theorem get : Within Elsewhere (get : Program World) := fun _ => ⟨rfl, rfl, rfl⟩

theorem updateTokens {cond : NativeToken → Bool} {set : NativeToken → NativeToken} :
    Within Elsewhere (updateTokens cond set) :=
  fun _ => ⟨rfl, rfl, rfl⟩

theorem transaction {α : Type} {x : Program α} (hx : Within Elsewhere x) :
    Within Elsewhere (transaction x) := by
  intro w
  rw [wp_transaction]
  exact (hx w).mono (fun _ _ h => h) fun _ _ h => ⟨rfl, h.2.1, h.2.2⟩

theorem active (id : String) : Within Elsewhere (active env id) := fun _ =>
  (wp_active id).mono (fun _ _ h =>
    ⟨congrArg Database.actions h.1.database, h.1.running, h.1.entered⟩)
    fun _ _ h => ⟨congrArg Database.actions h.database, h.running, h.entered⟩

theorem createToken (value : TokenInput) (actor id : String) :
    Within Elsewhere (createToken env value actor id) :=
  transaction (get.bind fun _ => Within.refuseIf.bind fun _ => now.bind fun _ => now.bind fun _ =>
    Within.refuseIf.bind fun _ _ => ⟨rfl, rfl, rfl⟩)

theorem edit (id : String) (value : TokenInput) : Within Elsewhere (edit env id value) :=
  transaction ((active id).bind fun _ => updateTokens)

theorem setDisabled (id : String) (disabled : Bool) : Within Elsewhere (setDisabled id disabled) :=
  transaction (get.bind fun _ => Within.refuseIf.bind fun _ => updateTokens)

theorem revoke (id : String) : Within Elsewhere (revoke env id) :=
  transaction (get.bind fun _ => Within.refuseIf.bind fun _ => now.bind fun _ => updateTokens)

theorem rotate (id : String) (ttlHours : Nat) (actor newId : String) :
    Within Elsewhere (rotate env id ttlHours actor newId) :=
  transaction ((active id).bind fun _ => (createToken _ actor newId).bind fun _ => revoke id)

theorem revokeAll : Within Elsewhere (revokeAll env) := transaction (now.bind fun _ => updateTokens)

theorem setPolicy (policy : Policy) : Within Elsewhere (setPolicy policy) :=
  transaction fun _ => ⟨rfl, rfl, rfl⟩

end Elsewhere

theorem Elsewhere.change {l : Label} (h : Elsewhere w w') : Change env w l w' := by
  refine .aged ?_ h.2.1 h.2.2
  rw [h.1]
  exact Moved.refl keeps_refl _

/-! ## Steps -/

theorem wp_discard {α : Type} {x : Program α} {Q : Unit → World → Prop}
    {E : McpFault → World → Prop} :
    wp (discard x) Q E w ↔ wp x (fun _ => Q ()) E w := by
  unfold wp discard
  simp only [Functor.mapConst, EStateM.map, Function.comp_apply, Function.const_apply]
  cases x w with
  | ok a w' => rfl
  | error e w' => rfl

theorem wp_program (hids : Ids w) (l : Label) :
    wp (program env l) (fun _ => Change env w l) (fun _ => Change env w l) w := by
  have helsewhere : ∀ {x : Program Unit}, Within Elsewhere x →
      wp x (fun _ => Change env w l) (fun _ => Change env w l) w :=
    fun hx => (hx w).mono (fun _ _ h => h.change) fun _ _ h => h.change
  have hages : ∀ {α : Type} {x : Program α}, wp x (fun _ => Ages w) (fun _ => Ages w) w →
      wp x (fun _ => Change env w l) (fun _ => Change env w l) w :=
    fun hx => hx.mono (fun _ _ h => h.change) fun _ _ h => h.change
  cases l with
  | submit nativeTokenId id args =>
      refine wp_discard.mpr ((wp_submit nativeTokenId args hids).mono
        (fun row w' h => ?_) fun _ _ h => h.change)
      obtain ⟨-, -, -, ⟨haged, -⟩ | ⟨rfl, rfl, hadds⟩⟩ := h
      · exact haged.change
      · exact .submitted hadds
  | approve id actor confirmationHash => exact wp_approve hids
  | interrupted id actor confirmationHash =>
      refine wp_expire_bind hids fun w₁ h₁ => ?_
      refine wp.bind ((wp_claim (h₁.ids hids)).mono (fun _ _ h => h) fun _ _ h =>
        (h₁.trans h).change) fun row w₂ h₂ => ?_
      have hall := h₁.trans h₂.2.ages
      refine (wp_restart (hall.ids hids)).mono (fun _ w₃ h₃ => ?_) fun _ _ => False.elim
      exact .restarted (hall.actions.leads.trans (fun hst htu => hst.trans htu) h₃.1) h₃.2.1
        (h₃.2.2.trans hall.entered)
  | settle i outcome first second => exact wp_settle i outcome first second
  | reject id actor => exact hages (wp_reject id actor hids)
  | reconcile id => exact hages (wp_reconcile id hids)
  | status nativeTokenId id => exact wp_discard.mpr (hages (wp_status nativeTokenId id hids))
  | list => exact hages ((wp_expire hids).mono (fun _ _ h => h) fun _ _ => False.elim)
  | createToken value actor id => exact helsewhere (Elsewhere.createToken value actor id)
  | edit id value => exact helsewhere (Elsewhere.edit id value)
  | setDisabled id disabled => exact helsewhere (Elsewhere.setDisabled id disabled)
  | revoke id => exact helsewhere (Elsewhere.revoke id)
  | rotate id ttlHours actor newId => exact helsewhere (Elsewhere.rotate id ttlHours actor newId)
  | revokeAll => exact helsewhere Elsewhere.revokeAll
  | setPolicy policy => exact helsewhere (Elsewhere.setPolicy policy)
  | resources r => exact helsewhere fun _ => ⟨rfl, rfl, rfl⟩
  | restart =>
      refine (wp_restart hids).mono (fun _ w' h => ?_) fun _ _ => False.elim
      exact .restarted h.1 h.2.1 h.2.2

theorem step_change (hids : Ids w) (l : Label) : Change env w l (step env w l) :=
  wp_iff_after.mp (wp_program hids l)

end Pluton.Mcp
