-- SUMMARY: An MCP action's domain service is entered at most once, and only as it was approved.
import Mathlib.Data.List.Induction
import Pluton.Mcp.Changes

/-!
# Dispatch

What holds of the gateway in every reachable state (`Inv`), and from it what a whole run
does: the service of an action is entered once at most, an action that is over stays over,
and the limits on the actions that hold a plan are kept.
-/
namespace Pluton.Mcp

open EStateM

variable {env : Env} {w w' : World} {l : Label} {row : ActionRow}

/-! ## The table -/

/-- The keys of the table and the limits on the actions that hold a plan. -/
structure Stored (db : Database) : Prop where
  ids : (db.actions.map fun row => row.toActionInputs.id).Nodup
  keys : (db.actions.map fun row =>
    (row.toActionInputs.tokenId, row.toActionInputs.args.idempotencyKey)).Nodup
  plans : (db.busy.map fun row => row.toActionInputs.args.planId).Nodup
  perToken : ∀ tokenId,
    (db.busy.filter fun row => row.toActionInputs.tokenId == tokenId).length ≤ tokenActions
  total : db.busy.length ≤ allActions

theorem Stored.moved {db db' : Database} (h : Stored db)
    (hmoved : Moved Leads db.actions db'.actions) : Stored db' := by
  have hfilter : ∀ rows : List ActionRow, (rows.filter fun _ => true) = rows := fun rows =>
    List.filter_eq_self.mpr fun _ _ => rfl
  refine ⟨?_, ?_, ?_, fun tokenId => ?_, ?_⟩
  · rw [hmoved.map_inputs ActionInputs.id]
    exact h.ids
  · rw [hmoved.map_inputs fun inputs => (inputs.tokenId, inputs.args.idempotencyKey)]
    exact h.keys
  · have hsub := hmoved.busy (fun _ => true) fun inputs => inputs.args.planId
    rw [hfilter, hfilter] at hsub
    exact hsub.nodup h.plans
  · have hsub := (hmoved.busy (fun inputs => inputs.tokenId == tokenId) id).length_le
    rw [List.length_map, List.length_map] at hsub
    exact Nat.le_trans hsub (h.perToken tokenId)
  · have hsub := (hmoved.busy (fun _ => true) id).length_le
    rw [hfilter, hfilter, List.length_map, List.length_map] at hsub
    exact Nat.le_trans hsub h.total

theorem busy_append {db : Database} (hpending : row.status = .pendingApproval) :
    Database.busy { db with actions := db.actions ++ [row] } = db.busy ++ [row] := by
  unfold Database.busy
  rw [List.filter_append, List.filter_cons, hpending]
  rfl

theorem Stored.add {db : Database} (h : Stored db) (hpending : row.status = .pendingApproval)
    (hfits : Fits db row) :
    Stored { db with actions := db.actions ++ [row] } := by
  refine ⟨?_, ?_, ?_, fun tokenId => ?_, ?_⟩
  · dsimp only
    rw [List.map_append, List.nodup_append]
    refine ⟨h.ids, List.nodup_singleton _, fun id hid id' hid' heq => ?_⟩
    obtain ⟨other, hother, rfl⟩ := List.mem_map.mp hid
    rw [List.mem_singleton.mp hid'] at heq
    exact hfits.id other hother heq
  · dsimp only
    rw [List.map_append, List.nodup_append]
    refine ⟨h.keys, List.nodup_singleton _, fun key hkey key' hkey' heq => ?_⟩
    obtain ⟨other, hother, rfl⟩ := List.mem_map.mp hkey
    rw [List.mem_singleton.mp hkey'] at heq
    exact hfits.key other hother ⟨congrArg Prod.fst heq, congrArg Prod.snd heq⟩
  · rw [busy_append hpending, List.map_append, List.nodup_append]
    refine ⟨h.plans, List.nodup_singleton _, fun plan hplan plan' hplan' heq => ?_⟩
    obtain ⟨other, hother, rfl⟩ := List.mem_map.mp hplan
    rw [List.mem_singleton.mp hplan'] at heq
    exact hfits.plan other hother heq
  · rw [busy_append hpending, List.filter_append, List.length_append]
    by_cases htoken : row.tokenId = tokenId
    · subst htoken
      have hone : ([row].filter fun other =>
          other.toActionInputs.tokenId == row.tokenId).length = 1 := by simp
      have hroom := hfits.perToken
      omega
    · have hnone : ([row].filter fun other => other.toActionInputs.tokenId == tokenId).length =
          0 := by simp [htoken]
      have hbefore := h.perToken tokenId
      omega
  · rw [busy_append hpending, List.length_append, List.length_singleton]
    exact hfits.total

/-! ## The invariant -/

/-- An approval under way is of an action under way, and no entered action is pending. -/
structure Inv (w : World) : Prop where
  stored : Stored w.database
  running : (w.running.map fun claimed => claimed.row.id).Nodup
  executing : ∀ claimed ∈ w.running, ∃ row ∈ w.database.actions,
    row.id = claimed.row.id ∧ row.status = .executing
  entered : ∀ id ∈ w.entered, ∃ row ∈ w.database.actions,
    row.id = id ∧ row.status ≠ .pendingApproval
  once : w.entered.Nodup

theorem Keeps.executing {s t : Status} (h : Keeps s t) (hs : s = .executing) : t = .executing := by
  unfold Keeps at h
  subst hs
  simp_all

/-- The part about entered actions, over any move. -/
theorem Inv.entered_moved (h : Inv w) (hmoved : Moved Leads w.database.actions w'.database.actions)
    (hentered : w'.entered = w.entered) :
    ∀ id ∈ w'.entered, ∃ row ∈ w'.database.actions,
      row.id = id ∧ row.status ≠ .pendingApproval := by
  intro id hid
  rw [hentered] at hid
  obtain ⟨row, hrow, hrowid, hstatus⟩ := h.entered id hid
  obtain ⟨row', hrow', hmoves⟩ := hmoved.exists_after hrow
  exact ⟨row', hrow', (congrArg ActionInputs.id hmoves.inputs).trans hrowid,
    hmoves.status.decided hstatus⟩

theorem Inv.aged (h : Inv w) (hmoved : Moved Keeps w.database.actions w'.database.actions)
    (hrunning : w'.running = w.running) (hentered : w'.entered = w.entered) : Inv w' := by
  refine ⟨h.stored.moved hmoved.leads, ?_, fun claimed hclaimed => ?_,
    h.entered_moved hmoved.leads hentered, ?_⟩
  · rw [hrunning]
    exact h.running
  · rw [hrunning] at hclaimed
    obtain ⟨row, hrow, hid, hstatus⟩ := h.executing claimed hclaimed
    obtain ⟨row', hrow', hmoves⟩ := hmoved.exists_after hrow
    exact ⟨row', hrow', (congrArg ActionInputs.id hmoves.inputs).trans hid,
      hmoves.status.executing hstatus⟩
  · rw [hentered]
    exact h.once

theorem Inv.submitted (h : Inv w) (hadds : Adds env w w' row) : Inv w' := by
  obtain ⟨w₁, hages, hfits, hdatabase⟩ := hadds.aged
  have h₁ : Inv w₁ := h.aged hages.actions hages.running hages.entered
  have hmore : ∀ other ∈ w₁.database.actions, other ∈ w'.database.actions := by
    intro other hother
    rw [hdatabase]
    exact List.mem_append_left _ hother
  refine ⟨?_, ?_, fun claimed hclaimed => ?_, fun id hid => ?_, ?_⟩
  · rw [hdatabase]
    exact h₁.stored.add hadds.requested.pending hfits
  · rw [hadds.running]
    exact h.running
  · rw [hadds.running, ← hages.running] at hclaimed
    obtain ⟨other, hother, hrest⟩ := h₁.executing claimed hclaimed
    exact ⟨other, hmore other hother, hrest⟩
  · rw [hadds.entered, ← hages.entered] at hid
    obtain ⟨other, hother, hrest⟩ := h₁.entered id hid
    exact ⟨other, hmore other hother, hrest⟩
  · rw [hadds.entered]
    exact h.once

theorem Inv.ids (h : Inv w) : Ids w := h.stored.ids

theorem Inv.approved {id actor confirmationHash : String} {claimed : Claimed} (h : Inv w)
    (hid : claimed.row.id = id)
    (hclaims : Claims env w { w' with running := w.running,
                                      entered := w.entered } id actor confirmationHash)
    (hrunning : w'.running = w.running ++ [claimed]) (hentered : w'.entered = w.entered ++ [id]) :
    Inv w' := by
  obtain ⟨row, happroved⟩ := hclaims.approved
  have hages := hclaims.ages
  have h₁ : Inv { w' with running := w.running, entered := w.entered } :=
    h.aged hages.actions rfl rfl
  obtain ⟨row', hrow', hid', hexecuting⟩ := hclaims.executing
  -- the action was pending, so that it is neither under way nor entered
  have hpending : ∀ other ∈ w.database.actions, other.id = id →
      other.status = .pendingApproval := by
    intro other hother heq
    rw [h.ids.unique happroved.mem hother (heq.trans happroved.id_eq.symm)]
    exact happroved.pending
  refine ⟨h₁.stored, ?_, fun other hother => ?_, fun other hother => ?_, ?_⟩
  · rw [hrunning, List.map_append, List.nodup_append]
    refine ⟨h.running, List.nodup_singleton _, fun x hx y hy heq => ?_⟩
    obtain ⟨other, hother, rfl⟩ := List.mem_map.mp hx
    obtain ⟨old, hold, holdid, hstatus⟩ := h.executing other hother
    have hsame : old.id = id := holdid.trans (heq.trans ((List.mem_singleton.mp hy).trans hid))
    rw [hpending old hold hsame] at hstatus
    cases hstatus
  · rw [hrunning] at hother
    rcases List.mem_append.mp hother with hother | hother
    · exact h₁.executing other hother
    · rw [List.mem_singleton.mp hother, hid]
      exact ⟨row', hrow', hid', hexecuting⟩
  · rw [hentered] at hother
    rcases List.mem_append.mp hother with hother | hother
    · exact h₁.entered other hother
    · rw [List.mem_singleton.mp hother]
      exact ⟨row', hrow', hid', by rw [hexecuting]; exact nofun⟩
  · rw [hentered, List.nodup_append]
    refine ⟨h.once, List.nodup_singleton _, fun x hx y hy heq => ?_⟩
    obtain ⟨old, hold, holdid, hstatus⟩ := h.entered x hx
    exact hstatus (hpending old hold (holdid.trans (heq.trans (List.mem_singleton.mp hy))))

/-- An outcome moves the row of an action under way. -/
theorem Records.moved {id : String} {rows rows' : List ActionRow} (h : Records id rows rows')
    (hexecuting : ∀ row ∈ rows, row.id = id → row.status = .executing) :
    Moved Leads rows rows' := by
  rcases h with rfl | ⟨set, rfl, hset⟩
  · exact Moved.refl (fun s => (keeps_refl s).leads) _
  · refine moved_update (fun s => (keeps_refl s).leads) fun row hrow hcond => ⟨(hset row).1, ?_⟩
    rw [hexecuting row hrow (beq_iff_eq.mp hcond)]
    rcases (hset row).2 with hstatus | hstatus
    · exact .inr (.inl hstatus)
    · exact .inr (.inr (.inl hstatus))

theorem Inv.executing_unique (h : Inv w) {claimed : Claimed} (hclaimed : claimed ∈ w.running) :
    ∀ row ∈ w.database.actions, row.id = claimed.row.id → row.status = .executing := by
  intro row hrow heq
  obtain ⟨other, hother, hid, hstatus⟩ := h.executing claimed hclaimed
  rw [h.ids.unique hother hrow (heq.trans hid.symm)]
  exact hstatus

theorem Inv.settled {i : Nat} {claimed : Claimed} (h : Inv w)
    (hclaimed : w.running[i]? = some claimed)
    (hrecords : Records claimed.row.id w.database.actions w'.database.actions)
    (hrunning : w'.running = w.running.eraseIdx i) (hentered : w'.entered = w.entered) :
    Inv w' := by
  have hmem : claimed ∈ w.running := List.mem_of_getElem? hclaimed
  have hmoved := hrecords.moved (h.executing_unique hmem)
  refine ⟨h.stored.moved hmoved, ?_, fun other hother => ?_, h.entered_moved hmoved hentered, ?_⟩
  · rw [hrunning]
    exact ((List.eraseIdx_sublist _ _).map _).nodup h.running
  · rw [hrunning] at hother
    obtain ⟨row, hrow, hid, hstatus⟩ := h.executing other ((List.eraseIdx_sublist _ _).mem hother)
    -- no other approval is of the same action
    have hne : other.row.id ≠ claimed.row.id := by
      intro heq
      obtain ⟨j, hj, hother'⟩ := List.mem_eraseIdx_iff_getElem?.mp hother
      have hlt : i < (w.running.map fun claimed => claimed.row.id).length := by
        rw [List.length_map]
        exact (List.getElem?_eq_some_iff.mp hclaimed).1
      refine hj ((List.getElem?_inj hlt h.running).mp ?_).symm
      rw [List.getElem?_map, List.getElem?_map, hclaimed, hother', Option.map_some,
        Option.map_some, heq]
    rcases hrecords with hsame | ⟨set, hupdate, -⟩
    · rw [hsame]
      exact ⟨row, hrow, hid, hstatus⟩
    · refine ⟨row, ?_, hid, hstatus⟩
      rw [hupdate]
      refine Table.mem_update.mpr ⟨row, hrow, if_neg fun hcond => hne ?_⟩
      exact hid.symm.trans (beq_iff_eq.mp hcond)
  · rw [hentered]
    exact h.once

theorem Inv.restarted (h : Inv w) (hmoved : Moved Leads w.database.actions w'.database.actions)
    (hrunning : w'.running = []) (hentered : w'.entered = w.entered) : Inv w' := by
  refine ⟨h.stored.moved hmoved, ?_, fun claimed hclaimed => ?_,
    h.entered_moved hmoved hentered, ?_⟩
  · rw [hrunning]
    exact List.nodup_nil
  · rw [hrunning] at hclaimed
    exact absurd hclaimed List.not_mem_nil
  · rw [hentered]
    exact h.once

theorem Inv.change (h : Inv w) (hchange : Change env w l w') : Inv w' := by
  cases hchange with
  | aged hactions hrunning hentered => exact h.aged hactions hrunning hentered
  | submitted hadds => exact h.submitted hadds
  | approved hid hclaims hrunning hentered => exact h.approved hid hclaims hrunning hentered
  | settled hclaimed hrecords hrunning hentered =>
      exact h.settled hclaimed hrecords hrunning hentered
  | restarted hactions hrunning hentered => exact h.restarted hactions hrunning hentered

/-! ## Runs -/

/-- A fresh table of actions, under any tokens, policy and plans. -/
def World.start (tokens : List NativeToken) (policy : Policy) (resources : Resources) : World where
  database := { tokens := tokens, policy := policy, actions := [], resources := resources }

def run (env : Env) (w : World) (labels : List Label) : World := labels.foldl (step env) w

theorem run_concat (labels : List Label) (l : Label) :
    run env w (labels ++ [l]) = step env (run env w labels) l := by
  unfold run
  rw [List.foldl_append, List.foldl_cons, List.foldl_nil]

theorem inv_start (tokens : List NativeToken) (policy : Policy) (resources : Resources) :
    Inv (World.start tokens policy resources) where
  stored := ⟨List.nodup_nil, List.nodup_nil, List.nodup_nil, fun _ => Nat.zero_le _, Nat.zero_le _⟩
  running := List.nodup_nil
  executing := fun _ h => absurd h List.not_mem_nil
  entered := fun _ h => absurd h List.not_mem_nil
  once := List.nodup_nil

theorem inv_run (h : Inv w) (labels : List Label) : Inv (run env w labels) := by
  induction labels generalizing w with
  | nil => exact h
  | cons l rest ih => exact ih (h.change (step_change h.ids l))

/-- A step moves the rows, and may add one that was requested. -/
theorem Change.actions (h : Inv w) (hchange : Change env w l w') :
    ∃ rows, Moved Leads w.database.actions rows ∧
    (w'.database.actions = rows ∨ ∃ nativeTokenId row, l = .submit nativeTokenId row.id row.args ∧
      w'.database.actions = rows ++ [row] ∧ Requested env w w' row) := by
  cases hchange with
  | aged hactions hrunning hentered => exact ⟨_, hactions.leads, .inl rfl⟩
  | @submitted nativeTokenId _ row hadds =>
      obtain ⟨w₁, hages, -, hdatabase⟩ := hadds.aged
      refine ⟨_, hages.actions.leads, .inr ⟨nativeTokenId, row, rfl, ?_, hadds.requested⟩⟩
      rw [hdatabase]
  | approved hid hclaims hrunning hentered => exact ⟨_, hclaims.ages.actions.leads, .inl rfl⟩
  | settled hclaimed hrecords hrunning hentered =>
      exact ⟨_, hrecords.moved (h.executing_unique (List.mem_of_getElem? hclaimed)), .inl rfl⟩
  | restarted hactions hrunning hentered => exact ⟨_, hactions, .inl rfl⟩

/-- At some step of the run the action was requested, with the inputs that it has. -/
def RequestedIn (env : Env) (w : World) (labels : List Label) (row : ActionRow) : Prop :=
  ∃ earlier nativeTokenId first, earlier ++ [.submit nativeTokenId row.id row.args] <+: labels ∧
    first.toActionInputs = row.toActionInputs ∧
    Requested env (run env w earlier)
      (run env w (earlier ++ [.submit nativeTokenId row.id row.args])) first

theorem requestedIn (h : Inv w) (hnone : w.database.actions = []) (labels : List Label) :
    ∀ row ∈ (run env w labels).database.actions, RequestedIn env w labels row := by
  induction labels using List.reverseRecOn with
  | nil =>
      intro row hrow
      change row ∈ w.database.actions at hrow
      rw [hnone] at hrow
      exact absurd hrow List.not_mem_nil
  | append_singleton labels l ih =>
      intro row' hrow'
      rw [run_concat] at hrow'
      have hinv : Inv (run env w labels) := inv_run h labels
      obtain ⟨rows, hmoved, hrows⟩ := (step_change hinv.ids l).actions hinv
      have hcases : row' ∈ rows ∨ ∃ nativeTokenId, l = .submit nativeTokenId row'.id row'.args ∧
          Requested env (run env w labels) (step env (run env w labels) l) row' := by
        rcases hrows with hsame | ⟨nativeTokenId, row, hl, hadded, hrequested⟩
        · exact .inl (hsame ▸ hrow')
        · rw [hadded] at hrow'
          refine (List.mem_append.mp hrow').imp id fun hnew => ?_
          obtain rfl := List.mem_singleton.mp hnew
          exact ⟨nativeTokenId, hl, hrequested⟩
      rcases hcases with hold | ⟨nativeTokenId, rfl, hrequested⟩
      · obtain ⟨row, hrow, hmoves⟩ := hmoved.exists_before hold
        obtain ⟨earlier, nativeTokenId, first, hearlier, hinputs, hrequested⟩ := ih row hrow
        have hid : row'.id = row.id := congrArg ActionInputs.id hmoves.inputs
        have hargs : row'.args = row.args := congrArg ActionInputs.args hmoves.inputs
        refine ⟨earlier, nativeTokenId, first, ?_, hinputs.trans hmoves.inputs.symm, ?_⟩
        · rw [hid, hargs]
          exact hearlier.trans (List.prefix_append _ _)
        · rw [hid, hargs]
          exact hrequested
      · refine ⟨labels, nativeTokenId, row', List.prefix_refl _, rfl, ?_⟩
        rw [run_concat]
        exact hrequested

/-! ## Actions that are over -/

/-- Rejected, expired, failed or uncertain: nobody may take the action up again. -/
def Status.isOver : Status → Bool
  | .rejected => true
  | .expired => true
  | .failed => true
  | .uncertain => true
  | _ => false

theorem Leads.over {s t : Status} (h : Leads s t) (hs : s.isOver = true) : t.isOver = true := by
  unfold Leads at h
  cases s <;> simp_all [Status.isOver]
  rcases h with rfl | rfl <;> rfl

theorem Change.entered (hchange : Change env w l w') : w'.entered = w.entered ∨
    ∃ id actor confirmationHash row, l = .approve id actor confirmationHash ∧
      w'.entered = w.entered ++ [id] ∧
      Approved env w w' id actor confirmationHash row := by
  cases hchange with
  | aged hactions hrunning hentered => exact .inl hentered
  | submitted hadds => exact .inl hadds.entered
  | @approved id actor confirmationHash _ claimed hid hclaims hrunning hentered =>
      obtain ⟨row, h⟩ := hclaims.approved
      obtain ⟨token, hadmitted, htoken⟩ := h.admitted
      refine .inr ⟨id, actor, confirmationHash, row, rfl, hentered, h.mem, h.id_eq, h.pending,
        h.actor, h.confirmed, h.unexpired,
        ⟨token, ?_, htoken⟩, h.stateHash⟩
      exact hadmitted.widen rfl rfl (Nat.le_refl _) (Nat.le_refl _)
  | settled hclaimed hrecords hrunning hentered => exact .inl hentered
  | restarted hactions hrunning hentered => exact .inl hentered

/-- An action that is over stays over, and its service is not entered. -/
theorem Inv.over_step (h : Inv w) (hrow : row ∈ w.database.actions)
    (hover : row.status.isOver = true) (l : Label) :
    (step env w l).entered.count row.id = w.entered.count row.id ∧
    ∃ row' ∈ (step env w l).database.actions, row'.id = row.id ∧ row'.status.isOver = true := by
  have hchange : Change env w l (step env w l) := step_change h.ids l
  constructor
  · rcases hchange.entered with hsame | ⟨id, actor, confirmationHash, approved, -,
      hentered, happroved⟩
    · rw [hsame]
    · have hne : id ≠ row.id := by
        rintro rfl
        rw [h.ids.unique happroved.mem hrow happroved.id_eq.symm, happroved.pending] at hover
        cases hover
      rw [hentered, List.count_append, List.count_singleton,
        if_neg (by simpa using hne), Nat.add_zero]
  · obtain ⟨rows, hmoved, hrows⟩ := hchange.actions h
    obtain ⟨row', hrow', hmoves⟩ := hmoved.exists_after hrow
    refine ⟨row', ?_, congrArg ActionInputs.id hmoves.inputs, hmoves.status.over hover⟩
    rcases hrows with hsame | ⟨_, _, _, hadded, _⟩
    · rw [hsame]
      exact hrow'
    · rw [hadded]
      exact List.mem_append_left _ hrow'

theorem Inv.over_run (h : Inv w) (hrow : row ∈ w.database.actions)
    (hover : row.status.isOver = true) (labels : List Label) :
    (run env w labels).entered.count row.id = w.entered.count row.id ∧
    ∃ row' ∈ (run env w labels).database.actions, row'.id = row.id ∧ row'.status.isOver = true := by
  induction labels generalizing w row with
  | nil => exact ⟨rfl, row, hrow, rfl, hover⟩
  | cons l rest ih =>
      obtain ⟨hcount, row', hrow', hid, hover'⟩ := @Inv.over_step env w row h hrow hover l
      obtain ⟨hcount', last, hlast, hid', hover''⟩ :=
        ih (h.change (step_change h.ids l)) hrow' hover'
      refine ⟨?_, last, hlast, hid'.trans hid, hover''⟩
      rw [← hcount, ← hid]
      exact hcount'

/-! ## The gateway -/

/-- A request with a key that the token has used returns the action of that key or none. -/
theorem submit_same_key (h : Inv w) (hrow : row ∈ w.database.actions) {id : String}
    {args : ActionArgs} (hkey : args.idempotencyKey = row.args.idempotencyKey) {answer : ActionRow}
    (hsubmit : submit env (some row.tokenId) id args w = .ok answer w') :
    answer.id = row.id ∧ row.argumentsHash = env.hashArguments args := by
  have hspec : wp (submit env (some row.tokenId) id args) _ _ w :=
    wp_submit (some row.tokenId) args h.ids
  unfold wp at hspec
  rw [hsubmit] at hspec
  obtain ⟨htoken, hanswer, hhash, ⟨hages, hmem⟩ | ⟨hid, rfl, hadds⟩⟩ := hspec
  · -- the answer is a row of the table, and keys are unique
    obtain ⟨old, hold, hmoves⟩ := hages.actions.exists_before hmem
    have hinputs := hmoves.inputs
    have hsame : old = row := by
      refine List.inj_on_of_nodup_map h.stored.keys hold hrow (Prod.ext ?_ ?_)
      · exact (congrArg ActionInputs.tokenId hinputs).symm.trans (Option.some.inj htoken).symm
      · exact (congrArg (fun inputs : ActionInputs =>
          inputs.args.idempotencyKey) hinputs).symm.trans (hanswer.trans hkey)
    subst hsame
    exact ⟨congrArg ActionInputs.id hinputs,
      (congrArg ActionInputs.argumentsHash hinputs).symm.trans hhash⟩
  · -- a new row would have a key that is taken
    obtain ⟨w₁, hages, hfits, -⟩ := hadds.aged
    obtain ⟨row', hrow', hmoves⟩ := hages.actions.exists_after hrow
    have hinputs := hmoves.inputs
    refine absurd ⟨?_, ?_⟩ (hfits.key row' hrow')
    · exact (congrArg ActionInputs.tokenId hinputs).trans (Option.some.inj htoken)
    · exact (congrArg (fun inputs : ActionInputs =>
        inputs.args.idempotencyKey) hinputs).trans hkey.symm

/-- What holds of the state `w` after the steps `labels` from `start`. -/
structure Dispatched (env : Env) (start w : World) (labels : List Label) : Prop where
  /-- no domain service is entered twice -/
  once : w.entered.Nodup
  /-- a step enters a service by an approval of what was requested, or enters none -/
  approved : ∀ l, (step env w l).entered = w.entered ∨
    ∃ id actor confirmationHash row, l = .approve id actor confirmationHash ∧
      (step env w l).entered = w.entered ++ [id] ∧
      Approved env w (step env w l) id actor confirmationHash row ∧ RequestedIn env start labels row
  /-- an action that is over stays over, and its service is not entered any more -/
  finished : ∀ row ∈ w.database.actions, row.status.isOver = true → ∀ later,
    (run env w later).entered.count row.id = w.entered.count row.id ∧
    ∃ row' ∈ (run env w later).database.actions, row'.id = row.id ∧ row'.status.isOver = true
  /-- the limits are kept -/
  stored : Stored w.database
  /-- one key of a token is one action -/
  key : ∀ row ∈ w.database.actions, ∀ id args answer w',
    args.idempotencyKey = row.args.idempotencyKey →
    submit env (some row.tokenId) id args w = .ok answer w' →
    answer.id = row.id ∧ row.argumentsHash = env.hashArguments args

/-- In every state of every run of the gateway the actions were dispatched at
most once and as approved. -/
theorem actions_dispatched_once (env : Env) (tokens : List NativeToken) (policy : Policy)
    (resources : Resources) (labels : List Label) :
    Dispatched env (.start tokens policy resources)
      (run env (.start tokens policy resources) labels) labels := by
  have hinv : Inv (run env (.start tokens policy resources) labels) :=
    inv_run (inv_start tokens policy resources) labels
  have hrequested : ∀ row ∈ (run env (.start tokens policy resources) labels).database.actions,
      RequestedIn env (.start tokens policy resources) labels row :=
    requestedIn (inv_start tokens policy resources) rfl labels
  refine ⟨hinv.once, fun l => ?_,
    fun row hrow hover later => hinv.over_run hrow hover later, hinv.stored,
    fun row hrow id args answer w' hkey hsubmit => submit_same_key hinv hrow hkey hsubmit⟩
  refine (step_change hinv.ids l).entered.imp id ?_
  rintro ⟨id, actor, confirmationHash, row, hl, hentered, happroved⟩
  exact ⟨id, actor, confirmationHash, row, hl, hentered, happroved, hrequested row happroved.mem⟩

end Pluton.Mcp
