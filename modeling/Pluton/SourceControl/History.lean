-- SUMMARY: What a run of the source access store keeps: reports, roots and one open request.
import Mathlib.Data.List.Induction
import Pluton.SourceControl.Requests

/-!
# The history of source access

Reports and completions arrive in any order. Of every Agent the accepted reports only
advance, the roots in effect lie inside the selected ones, and the selected ones come from
the first report or from a request that was applied.
-/
namespace Pluton.SourceControl

variable {db db' : Tables} {agent other : String} {now : Nat} {request : AgentSourceAccessRequest}
  {state : Option AgentSourceAccessState} {report : SourceAccessReport} {input : Completion}
  {state' : AgentSourceAccessState} {allow : Bool} {commandId : String}

/-! ## The row of an Agent -/

@[simp] theorem getState_putState_self (row : AgentSourceAccessState) :
    getState (putState db row) row.agentId = some row := by
  unfold getState putState
  cases hany : db.states.any (·.agentId == row.agentId) with
  | true =>
      rw [if_pos rfl, Table.find?_replace rfl, if_pos hany]
  | false =>
      have hnone : db.states.find? (fun state => state.agentId == row.agentId) = none := by
        simpa using hany
      simp [List.find?_append, hnone]

theorem getState_putState_of_ne {row : AgentSourceAccessState} (hne : row.agentId ≠ other) :
    getState (putState db row) other = getState db other := by
  unfold getState putState
  split
  · exact Table.find?_replace_of_ne rfl hne
  · simp [List.find?_append, beq_eq_false_iff_ne.mpr hne]

theorem mem_putState {row state : AgentSourceAccessState} (h : state ∈ (putState db row).states) :
    state = row ∨ state ∈ db.states := by
  unfold putState at h
  split at h
  · obtain ⟨old, hold, heq⟩ := Table.mem_update.mp h
    split at heq
    · exact .inl heq.symm
    · exact .inr (heq ▸ hold)
  · simpa [or_comm] using h

@[simp] theorem putState_requests {row : AgentSourceAccessState} :
    (putState db row).requests = db.requests := by
  unfold putState
  split <;> rfl

theorem mem_of_getState {state : AgentSourceAccessState} (h : getState db agent = some state) :
    state ∈ db.states :=
  List.mem_of_find?_eq_some h

/-! ## The rows of the requests -/

/-- The row keeps what it was created with. -/
def SameInput (row row' : AgentSourceAccessRequest) : Prop :=
  row' = { row with
    status := row'.status
    validation := row'.validation
    resultCode := row'.resultCode
    completedAt := row'.completedAt }

namespace SameInput

variable {row row' row'' : AgentSourceAccessRequest}

theorem refl (row : AgentSourceAccessRequest) : SameInput row row := by cases row; rfl

theorem trans (h : SameInput row row') (h' : SameInput row' row'') : SameInput row row'' := by
  unfold SameInput at h h'
  rw [h] at h'
  exact h'

theorem id (h : SameInput row row') : row'.id = row.id := by rw [h]

theorem agentId (h : SameInput row row') : row'.agentId = row.agentId := by rw [h]

theorem kind (h : SameInput row row') : row'.kind = row.kind := by rw [h]

theorem roots (h : SameInput row row') : row'.roots = row.roots := by rw [h]

theorem matchesAppliedReport (h : SameInput row row') (report : SourceAccessReport) :
    matchesAppliedReport row' report = matchesAppliedReport row report := by rw [h]; rfl

end SameInput

/-- What every operation leaves of a request: an outcome is no new request. -/
structure Kept (row row' : AgentSourceAccessRequest) : Prop where
  input : SameInput row row'
  opened : row'.status.isOpen = true → row.status.isOpen = true
  setup : row'.status = .pendingHostSetup → row.status = .pendingHostSetup ∨ row.kind = .modeSetup

theorem Kept.refl (row : AgentSourceAccessRequest) : Kept row row := ⟨.refl row, id, .inl⟩

theorem Kept.trans {row row' row'' : AgentSourceAccessRequest} (h : Kept row row')
    (h' : Kept row' row'') :
    Kept row row'' where
  input := h.input.trans h'.input
  opened hopen := h.opened (h'.opened hopen)
  setup hsetup :=
    match h'.setup hsetup with
    | .inl hpending => h.setup hpending
    | .inr hkind => .inr (h.input.kind ▸ hkind)

/-- An outcome that is final in this sense leaves the row a request of the past. -/
theorem Kept.settled {row row' : AgentSourceAccessRequest} (hinput : SameInput row row')
    (hopen : row'.status.isOpen = false)
    (hsetup : row'.status = .pendingHostSetup → row.kind = .modeSetup) : Kept row row' :=
  ⟨hinput, fun h => absurd h (by simp [hopen]), fun h => .inr (hsetup h)⟩

/-! ## Reports -/

/-- An accepted report: the report that is kept, the selected roots and the tables. -/
inductive Written (db : Tables) (agent : String) (report : SourceAccessReport) (allow : Bool) :
    SourceAccessReport → List String → Tables → Prop
  | first {accepted : SourceAccessReport} {db' : Tables} (hstate : getState db agent = none)
      (hpaths : accepted.paths = report.paths)
      (hroots : accepted.effectiveRoots = [] ∨ accepted.effectiveRoots = report.effectiveRoots) :
      Written db agent report allow accepted report.paths db'
  | kept {state : AgentSourceAccessState} {accepted : SourceAccessReport} {db' : Tables}
      (hstate : getState db agent = some state)
      (hversion : state.report.effectiveVersion ≤ accepted.effectiveVersion)
      (hinside : inside state.selectedRoots accepted.effectiveRoots = true) :
      Written db agent report allow accepted state.selectedRoots db'
  | chosen {state : AgentSourceAccessState} {request row : AgentSourceAccessRequest} {db' : Tables}
      (hstate : getState db agent = some state)
      (hversion : state.report.effectiveVersion < report.effectiveVersion) (hallow : allow = true)
      (hrequest : request ∈ db.requests)
      (hagent : request.agentId = agent) (hmatch : matchesAppliedReport request report = true)
      (hrow : row ∈ db'.requests) (hinput : SameInput request row)
      (happlied : row.status = .applied) :
      Written db agent report allow report request.roots db'

theorem inside_nil {selectedRoots : List String} : inside selectedRoots [] = true := rfl

theorem inside_of_subset {selectedRoots effectiveRoots : List String}
    (h : ∀ root ∈ effectiveRoots, root ∈ selectedRoots) :
    inside selectedRoots effectiveRoots = true := by
  simp only [inside, List.all_eq_true, List.any_eq_true]
  exact fun root hroot => ⟨root, h root hroot, sourcePathWithin_self root⟩

theorem applySetup_states {verdict : ModeVerdict} :
    (applySetup db now verdict).states = db.states := by
  cases verdict <;> rfl

theorem mem_of_requestOf {id : String} (h : requestOf db agent id = some request) :
    request ∈ db.requests ∧ request.id = id ∧ request.agentId = agent := by
  have hcond := List.find?_some h
  simp only [Bool.and_eq_true, beq_iff_eq] at hcond
  exact ⟨List.mem_of_find?_eq_some h, hcond⟩

/-- A settled request is in the table with its outcome. -/
theorem mem_settle {status : SourceAccessRequestStatus} {code : String} {completedAt : Option Nat}
    (h : request ∈ db.requests) :
    { request with status := status, resultCode := some code, completedAt := completedAt } ∈
      (settle db request.id status code completedAt).requests :=
  Table.mem_update.mpr ⟨request, h, if_pos (beq_iff_eq.mpr rfl)⟩

theorem policyError_of_matches (h : matchesAppliedReport request report = true) :
    given report.policyError = none := by
  simp only [matchesAppliedReport, sourceReportHealthy, Bool.and_eq_true,
    Option.isNone_iff_eq_none] at h
  exact h.2.1

theorem keepAuthority_of_healthy (h : given report.policyError = none) :
    keepAuthority state report = report := by
  unfold keepAuthority
  split
  · simp [h]
  · rfl

theorem keepAuthority_policyError :
    (keepAuthority state report).policyError = report.policyError := by
  unfold keepAuthority
  split
  · split <;> rfl
  · rfl

/-- A report that changes the selection is the one that was sent. -/
theorem Written.of_keepAuthority {state : AgentSourceAccessState}
    {report accepted : SourceAccessReport} {roots : List String}
    (hstate : getState db agent = some state)
    (h : Written db agent (keepAuthority (some state) report) allow accepted roots db') :
    Written db agent report allow accepted roots db' := by
  cases h with
  | first hnone =>
      rw [hstate] at hnone
      cases hnone
  | kept hsome hversion hinside => exact .kept hsome hversion hinside
  | chosen hsome hversion hallow hrequest hagent hmatch hrow hinput happlied =>
      have hhealthy := policyError_of_matches hmatch
      rw [keepAuthority_policyError] at hhealthy
      rw [keepAuthority_of_healthy hhealthy] at hversion hmatch ⊢
      exact .chosen hsome hversion hallow hrequest hagent hmatch hrow hinput happlied

/-- What a report about a known mode does to the selection. -/
theorem writeSelection_written {state : AgentSourceAccessState}
    (hstate : getState db agent = some state) {db₁ : Tables}
    (hrows : ∀ row ∈ db₁.requests, ∃ old ∈ db.requests, SameInput old row) :
    Written db agent report allow (writeSelection db₁ agent state report now allow).2.1
      (writeSelection db₁ agent state report now allow).2.2
      (writeSelection db₁ agent state report now allow).1 := by
  have hunconfirmed : ∀ version, state.report.effectiveVersion ≤ version → ∀ db',
      Written db agent report allow (unconfirmedSelection version report) state.selectedRoots db' :=
    fun version hversion db' => .kept hstate hversion inside_nil
  unfold writeSelection
  split
  · exact .kept hstate (Nat.le_refl _) inside_nil
  · next hlower =>
    split
    · next hhigher =>
      split
      · next request hrequest =>
        split
        · next hconfirmed =>
          simp only [confirmsSelection, Bool.and_eq_true] at hconfirmed
          obtain ⟨id, -, hfound⟩ := Option.bind_eq_some_iff.mp hrequest
          obtain ⟨hmem, -, hagent⟩ := mem_of_requestOf hfound
          obtain ⟨old, hold, hinput⟩ := hrows request hmem
          have hmatch : matchesAppliedReport old report = true :=
            (hinput.matchesAppliedReport report).symm.trans hconfirmed.2.1
          rw [hinput.roots]
          exact .chosen hstate hhigher hconfirmed.1 hold
            (hinput.agentId ▸ hagent) hmatch (mem_settle hmem)
            (hinput.trans rfl) rfl
        · exact hunconfirmed _ (Nat.le_refl _) _
      · exact hunconfirmed _ (Nat.le_refl _) _
    · split
      · next hinside => exact .kept hstate (Nat.le_of_not_lt hlower) hinside
      · exact hunconfirmed _ (Nat.le_of_not_lt hlower) _

/-! ## What a report does to the requests -/

section Rewrites

variable {R : AgentSourceAccessRequest → AgentSourceAccessRequest → Prop}

theorem settle_rewrites [Std.Refl R] {id : String} {status : SourceAccessRequestStatus}
    {code : String} {completedAt : Option Nat} (h : ∀ row ∈ db.requests, row.id = id →
      R row { row with status := status, resultCode := some code, completedAt := completedAt }) :
    List.Forall₂ R db.requests (settle db id status code completedAt).requests :=
  Table.forall₂_update fun row hrow hid => h row hrow (beq_iff_eq.mp hid)

variable [IsPreorder _ R]
  (happlied : ∀ row code completedAt,
    R row { row with status := .applied, resultCode := some code, completedAt := completedAt })
include happlied

theorem applySetup_rewrites {verdict : ModeVerdict} :
    List.Forall₂ R db.requests (applySetup db now verdict).requests := by
  cases verdict with
  | confirmed setup => exact settle_rewrites fun row _ _ => happlied row _ _
  | unchanged => exact List.forall₂_refl _
  | unconfirmed => exact List.forall₂_refl _

theorem writeSelection_rewrites {state : AgentSourceAccessState} {report : SourceAccessReport}
    {allow : Bool} :
    List.Forall₂ R db.requests (writeSelection db agent state report now allow).1.requests := by
  unfold writeSelection
  split
  · exact List.forall₂_refl _
  · split
    · split
      · split
        · exact settle_rewrites fun row _ _ => happlied row _ _
        · exact List.forall₂_refl _
      · exact List.forall₂_refl _
    · split <;> exact List.forall₂_refl _

/-- A report only ever gives a request the status of one that is applied. -/
theorem writeReport_rewrites {report : SourceAccessReport} {signedTimestamp : Int} {allow : Bool} :
    List.Forall₂ R db.requests
      (writeReport db agent report signedTimestamp now allow).requests := by
  unfold writeReport
  dsimp only
  split
  · exact List.forall₂_refl _
  · rw [putState_requests]
    split
    · exact applySetup_rewrites happlied
    · exact Table.forall₂_trans (applySetup_rewrites happlied) (writeSelection_rewrites happlied)
    · exact applySetup_rewrites happlied

end Rewrites

theorem writeSelection_states {state : AgentSourceAccessState} :
    (writeSelection db agent state report now allow).1.states = db.states := by
  unfold writeSelection
  split
  · rfl
  · split
    · split
      · split <;> rfl
      · rfl
    · split <;> rfl

instance : IsPreorder _ SameInput where
  refl := .refl
  trans _ _ _ := .trans

instance : IsPreorder _ Kept where
  refl := .refl
  trans _ _ _ := .trans

theorem kept_applied (row : AgentSourceAccessRequest) (code : String) (completedAt : Option Nat) :
    Kept row { row with status := .applied, resultCode := some code, completedAt := completedAt } :=
  .settled rfl rfl nofun

/-- What is not a report that is accepted leaves the tables as they are. -/
theorem writeReport_cases (db : Tables) (agent : String) (report : AcceptedReport)
    (signedTimestamp : Int) (now : Nat) (allow : Bool) :
    dropped (getState db agent) report.toSourceAccessReport signedTimestamp = true ∧
        writeReport db agent report.toSourceAccessReport signedTimestamp now allow = db ∨
      dropped (getState db agent) report.toSourceAccessReport signedTimestamp = false ∧
        ∃ accepted roots db₁, db₁.states = db.states ∧
          Written db agent report.toSourceAccessReport allow accepted roots db₁ ∧
          writeReport db agent report.toSourceAccessReport signedTimestamp now allow =
            putState db₁ ⟨agent, accepted, roots, signedTimestamp, now⟩ := by
  unfold writeReport
  dsimp only
  split
  · next hdropped => exact .inl ⟨hdropped, rfl⟩
  · next hdropped =>
    refine .inr ⟨Bool.eq_false_iff.mpr hdropped, _, _, _, ?_, ?_, rfl⟩
    · split
      · exact applySetup_states
      · exact writeSelection_states.trans applySetup_states
      · exact applySetup_states
    · split
      · next hverdict =>
        cases hstate : getState db agent with
        | none => exact .first hstate rfl (.inl rfl)
        | some state => exact .kept hstate (Nat.le_refl _) inside_nil
      · next state hstate _ =>
        rw [hstate]
        refine .of_keepAuthority hstate (writeSelection_written hstate fun row hrow => ?_)
        exact Except.forall₂_mem_right (applySetup_rewrites fun _ _ _ => rfl) hrow
      · next hstate _ =>
        rw [hstate]
        exact .first hstate rfl (.inr rfl)

/-! ## The invariant -/

/-- What every reachable state of the store is like. -/
structure Inv (db : Tables) : Prop where
  ids : (db.requests.map (·.id)).Nodup
  setup : ∀ row ∈ db.requests, row.status = .pendingHostSetup → row.kind = .modeSetup
  single : ∀ agent,
    (db.requests.filter fun row => row.agentId == agent && row.status.isOpen).length ≤ 1
  inside : ∀ state ∈ db.states, inside state.selectedRoots state.report.effectiveRoots = true

theorem ids_of_kept {rows rows' : List AgentSourceAccessRequest}
    (h : List.Forall₂ Kept rows rows') :
    rows'.map (·.id) = rows.map (·.id) := by
  induction h with
  | nil => rfl
  | cons hrow _ ih => rw [List.map_cons, List.map_cons, hrow.input.id, ih]

theorem eq_of_id {rows : List AgentSourceAccessRequest} (hids : (rows.map (·.id)).Nodup)
    {row row' : AgentSourceAccessRequest} (hrow : row ∈ rows) (hrow' : row' ∈ rows)
    (hid : row.id = row'.id) : row = row' :=
  List.inj_on_of_nodup_map hids hrow hrow' hid

theorem setup_of_kept {rows rows' : List AgentSourceAccessRequest}
    (h : List.Forall₂ Kept rows rows')
    (hsetup : ∀ row ∈ rows, row.status = .pendingHostSetup → row.kind = .modeSetup) :
    ∀ row ∈ rows', row.status = .pendingHostSetup → row.kind = .modeSetup := by
  intro row' hrow' hstatus
  obtain ⟨row, hrow, hkept⟩ := Except.forall₂_mem_right h hrow'
  rw [hkept.input.kind]
  rcases hkept.setup hstatus with hpending | hkind
  · exact hsetup row hrow hpending
  · exact hkind

theorem Inv.of_kept (hinv : Inv db) (hkept : List.Forall₂ Kept db.requests db'.requests)
    (hinside : ∀ state ∈ db'.states,
      SourceControl.inside state.selectedRoots state.report.effectiveRoots = true) :
    Inv db' where
  ids := by
    rw [ids_of_kept hkept]
    exact hinv.ids
  setup := setup_of_kept hkept hinv.setup
  single agent := by
    refine Nat.le_trans (Table.length_filter_le_of_forall₂ (fun row row' hrow hopen => ?_) hkept)
      (hinv.single agent)
    rw [Bool.and_eq_true] at hopen ⊢
    rw [← hrow.input.agentId]
    exact ⟨hopen.1, hrow.opened hopen.2⟩
  inside := hinside

/-! ## What the operations do to the requests -/

theorem mem_of_getRequestForCommand (h : getRequestForCommand db agent commandId = some request) :
    request ∈ db.requests ∧ request.agentId = agent ∧ request.commandId = commandId := by
  have hcond := List.find?_some h
  simp only [Bool.and_eq_true, beq_iff_eq] at hcond
  exact ⟨List.mem_of_find?_eq_some h, hcond⟩

theorem kept_rejected (row : AgentSourceAccessRequest) (code : String) (completedAt : Option Nat) :
    Kept row { row with status := .rejected, resultCode := some code,
                        completedAt := completedAt } :=
  .settled rfl rfl nofun

theorem kept_cancelled (row : AgentSourceAccessRequest) (code : String) (completedAt : Option Nat) :
    Kept row { row with status := .cancelled, resultCode := some code,
                        completedAt := completedAt } :=
  .settled rfl rfl nofun

theorem markDelivered_kept {freshSince : Nat} :
    List.Forall₂ Kept db.requests (markDelivered db agent commandId now freshSince).1.requests := by
  unfold markDelivered
  split
  · exact List.forall₂_refl _
  · dsimp only
    split
    · exact List.forall₂_refl _
    · split
      · exact List.forall₂_refl _
      · split
        · exact settle_rewrites fun row _ _ => kept_rejected row _ _
        · refine Table.forall₂_update fun row _ hcond => ⟨rfl, fun _ => ?_, nofun⟩
          rw [Bool.and_eq_true, beq_iff_eq, beq_iff_eq] at hcond
          rw [hcond.2]
          rfl

theorem markDelivered_states {freshSince : Nat} :
    (markDelivered db agent commandId now freshSince).1.states = db.states := by
  unfold markDelivered
  split
  · rfl
  · dsimp only
    split
    · rfl
    · split
      · rfl
      · split <;> rfl

theorem cancel_states {requestId : String} :
    (cancel db agent requestId now).1.states = db.states := by
  unfold cancel
  split
  · rfl
  · split
    · rfl
    · split
      · rfl
      · split <;> rfl

theorem leaseNext_frame (db : Tables) (agent leaseOwner : String) (leaseMs now : Nat) :
    (leaseNext db agent leaseOwner leaseMs now).requests = db.requests ∧
      (leaseNext db agent leaseOwner leaseMs now).states = db.states := by
  unfold leaseNext
  dsimp only
  split
  · exact ⟨rfl, rfl⟩
  · split <;> exact ⟨rfl, rfl⟩

theorem cancel_kept {requestId : String} :
    List.Forall₂ Kept db.requests (cancel db agent requestId now).1.requests := by
  unfold cancel
  split
  · exact List.forall₂_refl _
  · split
    · exact List.forall₂_refl _
    · split
      · exact List.forall₂_refl _
      · split
        · exact List.forall₂_refl _
        · have hsettled (db : Tables) : List.Forall₂ Kept db.requests
              (settle db requestId .cancelled "source-request-cancelled" (some now)).requests :=
            settle_rewrites fun row _ _ => kept_cancelled row _ _
          exact hsettled (settleCommand db _ _ _ _)

/-- An outcome is never an open status, and only a mode setup waits for the host. -/
theorem outcome_final (request : AgentSourceAccessRequest) (input : Completion) :
    (outcome request input).1.isOpen = false ∧
      ((outcome request input).1 = .pendingHostSetup → request.kind = .modeSetup) := by
  unfold outcome
  dsimp only
  split
  · next hsetup _ =>
    split at hsetup
    · next hkind =>
      rw [Bool.and_eq_true, beq_iff_eq] at hkind
      split
      · exact ⟨rfl, fun _ => hkind.1⟩
      · exact ⟨rfl, nofun⟩
    · cases hsetup
  · split
    · exact ⟨rfl, nofun⟩
    · split
      · exact ⟨rfl, nofun⟩
      · split <;> exact ⟨rfl, nofun⟩

/-- The report of a completion, when it has one. -/
def reportedTables (db : Tables) (request : AgentSourceAccessRequest) (input : Completion) :
    Tables :=
  match input.report with
  | some report =>
      writeReport db input.agentId report input.signedTimestamp input.now (request.kind ==
        .apply && input.success)
  | none => db

theorem commit_requests :
    (commit db request input).requests =
      Table.update (reportedTables db request input).requests (·.id == request.id) fun row =>
        { row with
          status := (outcome request input).1
          validation := input.validation
          resultCode := some (outcome request input).2
          completedAt := some input.now } := rfl

theorem commit_states :
    (commit db request input).states = (reportedTables db request input).states := rfl

theorem reportedTables_rewrites {R : AgentSourceAccessRequest → AgentSourceAccessRequest → Prop}
    [IsPreorder _ R] (happlied : ∀ row code completedAt,
      R row { row with status := .applied, resultCode := some code, completedAt := completedAt })
    {request : AgentSourceAccessRequest} {input : Completion} :
    List.Forall₂ R db.requests (reportedTables db request input).requests := by
  unfold reportedTables
  split
  · exact writeReport_rewrites happlied
  · exact List.forall₂_refl _

theorem commit_kept (hids : (db.requests.map (·.id)).Nodup) (hrequest : request ∈ db.requests) :
    List.Forall₂ Kept db.requests (commit db request input).requests := by
  have hreported : List.Forall₂ Kept db.requests (reportedTables db request input).requests :=
    reportedTables_rewrites kept_applied
  rw [commit_requests]
  refine Table.forall₂_trans hreported (Table.forall₂_update fun row hrow hid => ?_)
  obtain ⟨old, hold, hkept⟩ := Except.forall₂_mem_right hreported hrow
  have hsame : old = request :=
    eq_of_id hids hold hrequest (hkept.input.id.symm.trans (beq_iff_eq.mp hid))
  have hfinal := outcome_final request input
  exact .settled rfl hfinal.1 fun hsetup => hkept.input.kind.trans (hsame ▸ hfinal.2 hsetup)

/-- What a completion does: nothing to the requests and the states, or a commit. -/
theorem complete_cases (db : Tables) (input : Completion) :
    (complete db input).1.requests = db.requests ∧ (complete db input).1.states = db.states ∨
      ∃ request, getRequestForCommand db input.agentId input.commandId = some request ∧
        (complete db input).1 = commit db request input := by
  unfold complete
  split
  · next request _ hrequest =>
    split
    · exact .inl ⟨rfl, rfl⟩
    · split
      · exact .inl ⟨rfl, rfl⟩
      · split
        · exact .inl ⟨rfl, rfl⟩
        · split
          · exact .inl ⟨rfl, rfl⟩
          · exact .inr ⟨_, hrequest, rfl⟩
  · exact .inl ⟨rfl, rfl⟩

/-! ## Reconciliation -/

theorem openRows_sublist (db : Tables) (agent : String) :
    ((openRows db agent).map (·.1)).Sublist db.requests := by
  unfold openRows
  rw [List.map_filterMap]
  refine List.Sublist.trans ?_ (List.filter_sublist (p := fun request : AgentSourceAccessRequest =>
    request.agentId == agent && (request.status.isOpen || request.status == .pendingHostSetup)))
  generalize db.requests.filter _ = rows
  induction rows with
  | nil => exact .slnil
  | cons row rows ih =>
      cases hfound : db.commands.find? (fun command => command.id == row.commandId) with
      | none => simpa [List.filterMap_cons, hfound] using ih.cons row
      | some command => simpa [List.filterMap_cons, hfound] using ih.cons_cons row

theorem open_of_openRows {row : AgentSourceAccessRequest × Agent.AgentCommandState}
    (h : row ∈ openRows db agent) :
    row.1.status.isOpen = true ∨ row.1.status = .pendingHostSetup := by
  obtain ⟨request, hrequest, hpair⟩ := List.mem_filterMap.mp h
  obtain ⟨command, -, rfl⟩ := Option.map_eq_some_iff.mp hpair
  have hcond := (List.mem_filter.mp hrequest).2
  simp only [Bool.and_eq_true, Bool.or_eq_true, beq_iff_eq] at hcond
  exact hcond.2

/-- The outcome of a command is final, or it leaves the request open. -/
theorem reconciled_final {commandState : Agent.AgentCommandState}
    {outcome : SourceAccessRequestStatus × String}
    (h : reconciled request state commandState = some outcome) :
    outcome.1 ≠ .pendingHostSetup ∧ (outcome.1.isOpen = false ∨ outcome.1 = .validating) := by
  cases commandState with
  | completed =>
      simp only [reconciled] at h
      split at h <;> cases h
      · exact ⟨nofun, .inl rfl⟩
      · exact ⟨nofun, .inr rfl⟩
  | cancelled => cases h; exact ⟨nofun, .inl rfl⟩
  | failed => cases h; exact ⟨nofun, .inl rfl⟩
  | expired => cases h; exact ⟨nofun, .inl rfl⟩
  | queued => cases h
  | leased => cases h
  | acknowledged => cases h
  | running => cases h

/-- One row of the loop changes its own request only, and no other. -/
theorem reconcileRow_requests (db : Tables) (now : Nat) (state : Option AgentSourceAccessState)
    (row : AgentSourceAccessRequest × Agent.AgentCommandState) :
    (reconcileRow state now db row).requests = db.requests ∨
      ∃ status code completedAt, (reconcileRow state now db row).requests =
        (settle db row.1.id status code completedAt).requests ∧ status ≠ .pendingHostSetup ∧
          (status.isOpen = false ∨ status = .validating ∧ row.1.kind ≠ .modeSetup) := by
  unfold reconcileRow
  dsimp only
  split
  · split
    · exact .inl rfl
    · exact .inr ⟨.rejected, _, _, rfl, nofun, .inl rfl⟩
  · next hkind =>
    split
    · exact .inl rfl
    · next status code houtcome =>
      split
      · exact .inl rfl
      · have hfinal := reconciled_final houtcome
        exact .inr ⟨status, code, _, rfl, hfinal.1, hfinal.2.imp_right fun h => ⟨h, hkind⟩⟩

theorem reconcileRow_states {row : AgentSourceAccessRequest × Agent.AgentCommandState} :
    (reconcileRow state now db row).states = db.states := by
  unfold reconcileRow
  dsimp only
  split
  · split <;> rfl
  · split
    · rfl
    · split <;> rfl

theorem reconcileRow_kept (hids : (db.requests.map (·.id)).Nodup)
    (hsetup : ∀ row ∈ db.requests, row.status = .pendingHostSetup → row.kind = .modeSetup)
    (now : Nat) (state : Option AgentSourceAccessState)
    {row : AgentSourceAccessRequest × Agent.AgentCommandState} (hrow : row.1 ∈ db.requests)
    (hopen : row.1.status.isOpen = true ∨ row.1.status = .pendingHostSetup) :
    List.Forall₂ Kept db.requests (reconcileRow state now db row).requests := by
  rcases reconcileRow_requests db now state row with
    hsame | ⟨status, code, completedAt, hsettled, hpending, hstatus⟩
  · rw [hsame]
    exact List.forall₂_refl _
  · rw [hsettled]
    refine settle_rewrites fun other hother hid => ?_
    rcases hstatus with hfinal | ⟨hvalidating, hkind⟩
    · exact .settled rfl hfinal fun h => absurd h hpending
    · refine ⟨rfl, fun _ => ?_, fun h => absurd h hpending⟩
      have hsame : other = row.1 := eq_of_id hids hother hrow hid
      rw [hsame]
      exact hopen.resolve_right fun h => hkind (hsetup _ hrow h)

/-- A row of the loop leaves the requests of the other rows. -/
theorem reconcileRow_mem {row : AgentSourceAccessRequest × Agent.AgentCommandState}
    (hrequest : request ∈ db.requests) (hid : request.id ≠ row.1.id) :
    request ∈ (reconcileRow state now db row).requests := by
  rcases reconcileRow_requests db now state row with
    hsame | ⟨status, code, completedAt, hsettled, -⟩
  · rw [hsame]
    exact hrequest
  · rw [hsettled]
    exact Table.mem_update.mpr ⟨request, hrequest, if_neg (by simpa using hid)⟩

theorem reconcileLoop_kept {rows : List (AgentSourceAccessRequest × Agent.AgentCommandState)}
    (hids : (db.requests.map (·.id)).Nodup)
    (hsetup : ∀ row ∈ db.requests, row.status = .pendingHostSetup → row.kind = .modeSetup)
    (hrows : ∀ row ∈ rows, row.1 ∈ db.requests ∧ (row.1.status.isOpen = true ∨
      row.1.status = .pendingHostSetup))
    (hdistinct : (rows.map (·.1.id)).Nodup) :
    List.Forall₂ Kept db.requests (rows.foldl (reconcileRow state now) db).requests ∧
      (rows.foldl (reconcileRow state now) db).states = db.states := by
  induction rows generalizing db with
  | nil => exact ⟨List.forall₂_refl _, rfl⟩
  | cons row rows ih =>
      rw [List.map_cons, List.nodup_cons] at hdistinct
      have hfirst := hrows row List.mem_cons_self
      have hkept := reconcileRow_kept hids hsetup now state hfirst.1 hfirst.2
      have hrest : ∀ other ∈ rows, other.1 ∈ (reconcileRow state now db row).requests ∧
          (other.1.status.isOpen = true ∨ other.1.status = .pendingHostSetup) := by
        intro other hother
        have hother' := hrows other (List.mem_cons_of_mem row hother)
        refine ⟨reconcileRow_mem hother'.1 fun hid => hdistinct.1 ?_, hother'.2⟩
        rw [← hid]
        exact List.mem_map_of_mem (f := fun row : AgentSourceAccessRequest × _ => row.1.id) hother
      have hids' : ((reconcileRow state now db row).requests.map (·.id)).Nodup := by
        rw [ids_of_kept hkept]
        exact hids
      obtain ⟨hloop, hstates⟩ := ih hids' (setup_of_kept hkept hsetup) hrest hdistinct.2
      exact ⟨Table.forall₂_trans hkept hloop, hstates.trans reconcileRow_states⟩

theorem reconcile_kept (hinv : Inv db) :
    List.Forall₂ Kept db.requests (reconcileTerminalRequests db agent now).requests ∧
      (reconcileTerminalRequests db agent now).states = db.states := by
  have hsub := openRows_sublist db agent
  refine reconcileLoop_kept hinv.ids hinv.setup (fun row hrow => ⟨?_, open_of_openRows hrow⟩) ?_
  · exact hsub.subset (List.mem_map_of_mem hrow)
  · have hids := (hsub.map (·.id)).nodup hinv.ids
    rwa [List.map_map] at hids

/-! ## Creation -/

/-- What a creation has checked, and what it adds. -/
theorem createRequest_ok {input : CreateRequest} (h : createRequest db input = .ok db') :
    (∃ state, getState db input.agentId = some state) ∧
      (∀ row ∈ db.requests, row.agentId = input.agentId → row.status.isOpen = false) ∧
      modeFrozen db input.agentId input.now = none ∧ (∀ row ∈ db.requests, row.id ≠ input.id) ∧
      db' = { db with commands := db.commands ++ [input.command],
                      requests := db.requests ++ [input.row] } := by
  simp only [createRequest, Except.bind_eq_ok, Except.pure_eq_ok, Except.refuseIf_eq_ok] at h
  obtain ⟨_, hrefused, _, -, _, hfresh, rfl⟩ := h
  unfold refuseRequest at hrefused
  split at hrefused
  · next identity _ =>
    simp only [Except.bind_eq_ok, Except.refuseIf_eq_ok] at hrefused
    obtain ⟨_, -, hrefused⟩ := hrefused
    split at hrefused
    · next state hstate =>
      simp only [Except.bind_eq_ok, Except.refuseIf_eq_ok] at hrefused
      obtain ⟨_, -, _, -, _, -, _, hopen, _, hfrozen, -⟩ := hrefused
      refine ⟨⟨state, hstate⟩, fun row hrow hagent => ?_, by simpa using hfrozen,
        fun row hrow hid => ?_, rfl⟩
      · have hnot := List.any_eq_false.mp hopen row hrow
        simpa [hagent] using hnot
      · have hnot := List.any_eq_false.mp hfresh row hrow
        simp [hid] at hnot
    · cases hrefused
  · cases hrefused

theorem Inv.create {input : CreateRequest} (hinv : Inv db) (h : createRequest db input = .ok db') :
    Inv db' := by
  obtain ⟨-, hopen, -, hfresh, rfl⟩ := createRequest_ok h
  refine ⟨?_, ?_, fun agent => ?_, hinv.inside⟩
  · rw [List.map_append, List.nodup_append]
    refine ⟨hinv.ids, List.nodup_singleton _, ?_⟩
    intro id hid _ hnew
    obtain ⟨row, hrow, rfl⟩ := List.mem_map.mp hid
    rw [List.mem_singleton.mp hnew]
    exact hfresh row hrow
  · intro row hrow hstatus
    rcases List.mem_append.mp hrow with hold | hnew
    · exact hinv.setup row hold hstatus
    · rw [List.mem_singleton.mp hnew] at hstatus
      cases hstatus
  · rw [List.filter_append, List.length_append]
    cases hagent : input.agentId == agent with
    | true =>
        -- The Agent had no open request, so the new one is the only one.
        have hnone :
            db.requests.filter (fun row => row.agentId == agent && row.status.isOpen) = [] := by
          refine List.filter_eq_nil_iff.mpr fun row hrow hcond => ?_
          rw [Bool.and_eq_true, beq_iff_eq] at hcond
          have hclosed := hopen row hrow (hcond.1.trans (beq_iff_eq.mp hagent).symm)
          rw [hclosed] at hcond
          cases hcond.2
        rw [hnone, List.length_nil, Nat.zero_add]
        exact List.length_filter_le _ [input.row]
    | false =>
        have hnone :
            [input.row].filter (fun row => row.agentId == agent && row.status.isOpen) = [] :=
          List.filter_eq_nil_iff.mpr fun row hrow hcond => by
            rw [List.mem_singleton.mp hrow, Bool.and_eq_true] at hcond
            exact absurd hcond.1 (by simp [CreateRequest.row, beq_eq_false_iff_ne.mp hagent])
        rw [hnone]
        exact hinv.single agent

/-! ## Steps -/

/-- The report that an operation brings for an Agent. -/
def Op.reports (agent : String) (report : SourceAccessReport) : Op → Prop
  | .recordHeartbeat agentId sent _ _ => agentId = agent ∧ sent.toSourceAccessReport = report
  | .complete input => input.agentId = agent ∧ input.report = some report
  | _ => False

/-- The operation brought a report that was accepted, and left the Agent's row `state`. -/
structure Accepts (db : Tables) (op : Op) (db' : Tables) (agent : String) (report : AcceptedReport)
    (state : AgentSourceAccessState) : Prop where
  reports : op.reports agent report.toSourceAccessReport
  newer : dropped (getState db agent) report.toSourceAccessReport state.latestReportTimestamp =
    false
  written : ∃ allow,
    Written db agent report.toSourceAccessReport allow state.report state.selectedRoots db'
  stored : getState db' agent = some state
  others : ∀ other, agent ≠ other → getState db' other = getState db other
  rows : ∀ row ∈ db'.states, row = state ∨ row ∈ db.states

theorem Written.mono {report accepted : SourceAccessReport} {roots : List String} {db₁ db₂ : Tables}
    (h : Written db agent report allow accepted roots db₁)
    (hrows : ∀ request ∈ db.requests, matchesAppliedReport request report = true → allow = true →
      ∀ row ∈ db₁.requests, SameInput request row → row.status = .applied →
        ∃ row' ∈ db₂.requests, SameInput request row' ∧ row'.status = .applied) :
    Written db agent report allow accepted roots db₂ := by
  cases h with
  | first hnone hpaths hroots => exact .first hnone hpaths hroots
  | kept hsome hversion hinside => exact .kept hsome hversion hinside
  | chosen hsome hversion hallow hrequest hagent hmatch hrow hinput happlied =>
      obtain ⟨row', hrow', hinput', happlied'⟩ :=
        hrows _ hrequest hmatch hallow _ hrow hinput happlied
      exact .chosen hsome hversion hallow hrequest hagent hmatch hrow' hinput' happlied'

/-- The writing of a report inside an operation: `db'` has the states that the report wrote. -/
theorem accepts_of_write {op : Op} {report : AcceptedReport} {signedTimestamp : Int} {now : Nat}
    (hreports : op.reports agent report.toSourceAccessReport)
    (hstates : db'.states =
      (writeReport db agent report.toSourceAccessReport signedTimestamp now allow).states)
    (hrows : ∀ request ∈ db.requests,
      matchesAppliedReport request report.toSourceAccessReport = true → allow = true →
      ∀ row ∈ (writeReport db agent report.toSourceAccessReport signedTimestamp now allow).requests,
        SameInput request row → row.status = .applied →
          ∃ row' ∈ db'.requests, SameInput request row' ∧ row'.status = .applied) :
    db'.states = db.states ∨ ∃ state, Accepts db op db' agent report state := by
  rcases writeReport_cases db agent report signedTimestamp now allow with
    ⟨-, hsame⟩ | ⟨hnewer, accepted, roots, db₁, hstates₁, hwritten, hwrite⟩
  · exact .inl (hstates.trans (congrArg _ hsame))
  · rw [hwrite] at hstates hrows
    refine .inr ⟨⟨agent, accepted, roots, signedTimestamp, now⟩, hreports, hnewer,
      ⟨allow, ?_⟩, ?_, ?_, ?_⟩
    · exact hwritten.mono fun request hrequest hmatch hallow row hrow =>
        hrows request hrequest hmatch hallow row (by rw [putState_requests]; exact hrow)
    · unfold getState
      rw [hstates]
      exact getState_putState_self ⟨agent, accepted, roots, signedTimestamp, now⟩
    · intro other hne
      unfold getState
      rw [hstates, ← hstates₁]
      exact getState_putState_of_ne hne
    · intro row hrow
      rw [hstates] at hrow
      rw [← hstates₁]
      exact mem_putState hrow

theorem outcome_applied (hreport : input.report = some report)
    (hsuccess : (request.kind == .apply && input.success) = true)
    (hmatch : matchesAppliedReport request report = true) :
    outcome request input = (.applied, "source-selection-applied") := by
  have hkind : (request.kind == .modeSetup) = false := by
    rw [Bool.and_eq_true, beq_iff_eq] at hsuccess
    rw [hsuccess.1]
    rfl
  unfold outcome
  simp [hkind, hreport, hsuccess, hmatch]

theorem commit_accepts (hids : (db.requests.map (·.id)).Nodup) (hrequest : request ∈ db.requests)
    {result : SourceAccessCommandResult} (hresult : input.result = some result) :
    (commit db request input).states = db.states ∨
      ∃ state, Accepts db (.complete input)
        (commit db request input) input.agentId result.sourceAccess state := by
  have hreport : input.report = some result.sourceAccess.toSourceAccessReport := by
    rw [Completion.report, hresult]
    rfl
  have htables : reportedTables db request input =
      writeReport db input.agentId result.sourceAccess.toSourceAccessReport
      input.signedTimestamp input.now (request.kind == .apply && input.success) := by
    rw [reportedTables, hreport]
  refine accepts_of_write ⟨rfl, hreport⟩ (commit_states.trans (congrArg _ htables)) ?_
  intro chosen hchosen hmatch hallow row hrow hinput happlied
  rw [← htables] at hrow
  rw [commit_requests]
  by_cases hid : row.id = request.id
  · -- The report is about the request that is completed: both come to the same verdict.
    have hsame : chosen = request := eq_of_id hids hchosen hrequest (hinput.id.symm.trans hid)
    have houtcome := outcome_applied hreport hallow (hsame ▸ hmatch)
    refine ⟨_, Table.mem_update.mpr ⟨row, hrow, if_pos (beq_iff_eq.mpr hid)⟩, hinput.trans rfl, ?_⟩
    rw [houtcome]
  · exact ⟨row, Table.mem_update.mpr ⟨row, hrow, if_neg (by simpa using hid)⟩, hinput, happlied⟩

/-- A step leaves the states of the Agents, or accepts a report. -/
theorem step_states (hinv : Inv db) (op : Op) :
    (step db op).states = db.states ∨ ∃ agent report state,
      Accepts db op (step db op) agent report state := by
  cases op with
  | recordHeartbeat agentId report signedTimestamp now =>
      have hreports :
          (Op.recordHeartbeat agentId report signedTimestamp now).reports agentId
          report.toSourceAccessReport :=
        ⟨rfl, rfl⟩
      have hstates : (step db (.recordHeartbeat agentId report signedTimestamp now)).states =
          (writeReport db agentId report.toSourceAccessReport signedTimestamp now true).states :=
            rfl
      have haccepts := accepts_of_write hreports hstates
        fun _ _ _ _ row hrow hinput happlied => ⟨row, hrow, hinput, happlied⟩
      exact haccepts.imp_right fun ⟨state, h⟩ => ⟨agentId, report, state, h⟩
  | complete input =>
      rcases complete_cases db input with hsame | ⟨request, hrequest, hcommit⟩
      · exact .inl hsame.2
      · have hmem := (mem_of_getRequestForCommand hrequest).1
        cases hresult : input.result with
        | none =>
            refine .inl ((congrArg _ hcommit).trans (commit_states.trans ?_))
            rw [reportedTables, Completion.report, hresult]
            rfl
        | some result =>
            have haccepts := commit_accepts hinv.ids hmem hresult
            rw [← hcommit] at haccepts
            exact haccepts.imp_right fun ⟨state, h⟩ =>
              ⟨input.agentId, result.sourceAccess, state, h⟩
  | createRequest input =>
      cases hcreate : createRequest db input with
      | error failure => simp [step, hcreate, Except.toOption]
      | ok db' =>
          obtain ⟨-, -, -, -, rfl⟩ := createRequest_ok hcreate
          simp [step, hcreate, Except.toOption]
  | markDelivered agentId commandId now freshSince =>
      exact .inl markDelivered_states
  | cancel agentId requestId now => exact .inl cancel_states
  | reconcileTerminalRequests agentId now => exact .inl (reconcile_kept hinv).2
  | leaseNext agentId leaseOwner leaseMs now =>
      exact .inl (leaseNext_frame db agentId leaseOwner leaseMs now).2
  | elsewhere commands identities plans backups => exact .inl rfl

/-- A step rewrites the requests row by row, or it creates one. -/
theorem step_requests (hinv : Inv db) (op : Op) :
    List.Forall₂ Kept db.requests (step db op).requests ∨
      ∃ input, op = .createRequest input ∧ createRequest db input = .ok (step db op) := by
  cases op with
  | recordHeartbeat agentId report signedTimestamp now =>
      exact .inl (writeReport_rewrites kept_applied)
  | complete input =>
      refine .inl ?_
      rcases complete_cases db input with hsame | ⟨request, hrequest, hcommit⟩
      · rw [step, hsame.1]
        exact List.forall₂_refl _
      · rw [step, hcommit]
        exact commit_kept hinv.ids (mem_of_getRequestForCommand hrequest).1
  | createRequest input =>
      cases hcreate : createRequest db input with
      | error failure =>
          simp only [step, hcreate]
          exact .inl (List.forall₂_refl _)
      | ok db' => exact .inr ⟨input, rfl, by simp [step, hcreate, Except.toOption]⟩
  | markDelivered agentId commandId now freshSince => exact .inl markDelivered_kept
  | cancel agentId requestId now => exact .inl cancel_kept
  | reconcileTerminalRequests agentId now => exact .inl (reconcile_kept hinv).1
  | leaseNext agentId leaseOwner leaseMs now =>
      rw [step, (leaseNext_frame db agentId leaseOwner leaseMs now).1]
      exact .inl (List.forall₂_refl _)
  | elsewhere commands identities plans backups => exact .inl (List.forall₂_refl _)

/-- The roots in effect lie inside the selection that a report leaves. -/
theorem Accepts.inside {op : Op} {report : AcceptedReport} {state : AgentSourceAccessState}
    (h : Accepts db op db' agent report state) :
    SourceControl.inside state.selectedRoots state.report.effectiveRoots = true := by
  obtain ⟨allow, hwritten⟩ := h.written
  revert hwritten
  generalize state.report = accepted
  generalize state.selectedRoots = roots
  intro hwritten
  cases hwritten with
  | first hnone hpaths hroots =>
      rcases hroots with hnil | hsame
      · rw [hnil]
        exact inside_nil
      · rw [hsame]
        exact inside_of_subset fun root => report.effective_mem
  | kept hsome hversion hinside => exact hinside
  | chosen hsome hversion hallow hrequest hagent hmatch hrow hinput happlied =>
      simp only [matchesAppliedReport, Bool.and_eq_true] at hmatch
      exact inside_of_subset fun root => (perm_of_sameSourceRoots hmatch.1.1.2).mem_iff.mpr

theorem Inv.step (hinv : Inv db) (op : Op) : Inv (step db op) := by
  rcases step_requests hinv op with hkept | ⟨input, rfl, hcreate⟩
  · refine hinv.of_kept hkept ?_
    rcases step_states hinv op with hsame | ⟨agent, report, state, haccepts⟩
    · rw [hsame]
      exact hinv.inside
    · intro row hrow
      rcases haccepts.rows row hrow with rfl | hold
      · exact haccepts.inside
      · exact hinv.inside row hold
  · exact hinv.create hcreate

theorem Inv.empty : Inv {} where
  ids := List.nodup_nil
  setup := fun _ hrow => absurd hrow List.not_mem_nil
  single _ := Nat.zero_le 1
  inside := fun _ hstate => absurd hstate List.not_mem_nil

theorem inv_run (ops : List Op) : Inv (run ops) := by
  induction ops using List.reverseRecOn with
  | nil => exact .empty
  | append_singleton ops op ih =>
      rw [run, List.foldl_append]
      exact ih.step op

/-! ## What only advances -/

/-- The Agent's row stays, and its timestamp and its version do not go back. -/
def Advances (db db' : Tables) (agent : String) : Prop :=
  ∀ state, getState db agent = some state → ∃ state', getState db' agent = some state' ∧
    state.latestReportTimestamp ≤ state'.latestReportTimestamp ∧
    state.report.effectiveVersion ≤ state'.report.effectiveVersion

theorem Advances.of_eq (h : getState db' agent = getState db agent) : Advances db db' agent :=
  fun state hstate => ⟨state, h.trans hstate, Int.le_refl _, Nat.le_refl _⟩

theorem Advances.trans {db'' : Tables} (h : Advances db db' agent) (h' : Advances db' db'' agent) :
    Advances db db'' agent := by
  intro state hstate
  obtain ⟨state', hstate', htime, hversion⟩ := h state hstate
  obtain ⟨state'', hstate'', htime', hversion'⟩ := h' state' hstate'
  exact ⟨state'', hstate'', Int.le_trans htime htime', Nat.le_trans hversion hversion'⟩

/-- An accepted report is newer, and it does not lower the version that is kept. -/
theorem Accepts.advances {op : Op} {report : AcceptedReport}
    (h : Accepts db op db' agent report state') : Advances db db' agent := by
  intro state hstate
  refine ⟨state', h.stored, ?_, ?_⟩
  · have hnewer := h.newer
    simp only [dropped, hstate, Option.any_some, Bool.or_eq_false_iff, decide_eq_false_iff_not,
      Int.not_le] at hnewer
    exact Int.le_of_lt hnewer.1
  · obtain ⟨allow, hwritten⟩ := h.written
    revert hwritten
    generalize state'.report = accepted
    generalize state'.selectedRoots = roots
    intro hwritten
    cases hwritten with
    | first hnone hpaths hroots =>
        rw [hstate] at hnone
        cases hnone
    | kept hsome hversion hinside =>
        cases hstate.symm.trans hsome
        exact hversion
    | chosen hsome hversion hallow hrequest hagent hmatch hrow hinput happlied =>
        cases hstate.symm.trans hsome
        exact Nat.le_of_lt hversion

theorem getState_congr (h : db'.states = db.states) : getState db' agent = getState db agent := by
  rw [getState, h]
  rfl

theorem advances_step (hinv : Inv db) (op : Op) (agent : String) :
    Advances db (step db op) agent := by
  rcases step_states hinv op with hsame | ⟨reporter, report, state, haccepts⟩
  · exact .of_eq (getState_congr hsame)
  · by_cases hagent : reporter = agent
    · exact hagent ▸ haccepts.advances
    · exact .of_eq (haccepts.others agent hagent)

theorem advances_run (hinv : Inv db) (ops : List Op) (agent : String) :
    Advances db (ops.foldl step db) agent := by
  induction ops generalizing db with
  | nil => exact .of_eq rfl
  | cons op ops ih => exact (advances_step hinv op agent).trans (ih (hinv.step op))

/-! ## Where the selected roots come from -/

/-- A step that sets the roots: the Agent's first report, by the paths it has a status
for, or a request of the Agent that is applied after the step. -/
inductive Chose (before after : Tables) (agent : String) (op : Op) (roots : List String) : Prop
  | first (report : SourceAccessReport) (hnone : getState before agent = none)
      (hreports : op.reports agent report)
      (hroots : roots = report.paths)
  | applied (request : AgentSourceAccessRequest) (hrequest : request ∈ after.requests)
      (hagent : request.agentId = agent)
      (hkind : request.kind = .apply) (happlied : request.status = .applied)
      (hroots : roots = request.roots)

theorem Accepts.selected {op : Op} {report : AcceptedReport}
    (h : Accepts db op db' agent report state') :
    (∃ state, getState db agent = some state ∧ state.selectedRoots = state'.selectedRoots) ∨
      Chose db db' agent op state'.selectedRoots := by
  have hreports := h.reports
  obtain ⟨allow, hwritten⟩ := h.written
  revert hwritten
  generalize state'.report = accepted
  generalize state'.selectedRoots = roots
  intro hwritten
  cases hwritten with
  | first hnone hpaths hroots => exact .inr (.first _ hnone hreports rfl)
  | kept hsome hversion hinside => exact .inl ⟨_, hsome, rfl⟩
  | @chosen state request row _ hsome hversion hallow hrequest hagent hmatch hrow hinput happlied =>
      have hkind : request.kind = .apply := by
        simp only [matchesAppliedReport, Bool.and_eq_true, beq_iff_eq] at hmatch
        exact hmatch.1.1.1.1.1.1
      exact .inr (.applied row hrow (hinput.agentId.trans hagent)
        (hinput.kind.trans hkind) happlied hinput.roots.symm)

theorem selected_step (hinv : Inv db) (op : Op)
    (hstate' : getState (step db op) agent = some state') :
    (∃ state, getState db agent = some state ∧ state.selectedRoots = state'.selectedRoots) ∨
      Chose db (step db op) agent op state'.selectedRoots := by
  rcases step_states hinv op with hsame | ⟨reporter, report, state, haccepts⟩
  · exact .inl ⟨state', (getState_congr hsame).symm.trans hstate', rfl⟩
  · by_cases hagent : reporter = agent
    · subst hagent
      cases haccepts.stored.symm.trans hstate'
      exact haccepts.selected
    · exact .inl ⟨state', (haccepts.others agent hagent).symm.trans hstate', rfl⟩

/-- The step of a run that set the roots that are selected now. -/
theorem selected_run (ops : List Op) {state : AgentSourceAccessState}
    (hstate : getState (run ops) agent = some state) :
    ∃ earlier op later, ops = earlier ++ op :: later ∧
      (∃ chosen, getState (run (earlier ++ [op])) agent = some chosen ∧
        chosen.selectedRoots = state.selectedRoots) ∧
      Chose (run earlier) (run (earlier ++ [op])) agent op state.selectedRoots := by
  induction ops using List.reverseRecOn generalizing state with
  | nil => cases hstate
  | append_singleton ops op ih =>
      have hrun : run (ops ++ [op]) = step (run ops) op := by rw [run, List.foldl_append]; rfl
      rcases selected_step (inv_run ops) op (hrun ▸ hstate) with ⟨state₀, hstate₀, hroots⟩ | hchose
      · obtain ⟨earlier, op₀, later, rfl, hchosen, hchose⟩ := ih hstate₀
        rw [← hroots]
        exact ⟨earlier, op₀, later ++ [op], by simp, hchosen, hchose⟩
      · exact ⟨ops, op, [], rfl, ⟨state, hstate, rfl⟩, hrun ▸ hchose⟩

/-! ## The history -/

/-- A request that a step adds was created while no mode setup froze its Agent. -/
theorem created_unfrozen (hinv : Inv db) (op : Op) {row : AgentSourceAccessRequest}
    (hrow : row ∈ (step db op).requests) (hnew : ∀ old ∈ db.requests, old.id ≠ row.id) :
    modeFrozen db row.agentId row.createdAt = none := by
  rcases step_requests hinv op with hkept | ⟨input, rfl, hcreate⟩
  · obtain ⟨old, hold, hkept⟩ := Except.forall₂_mem_right hkept hrow
    exact absurd hkept.input.id.symm (hnew old hold)
  · obtain ⟨-, -, hfrozen, -, hdb⟩ := createRequest_ok hcreate
    rw [hdb] at hrow
    rcases List.mem_append.mp hrow with hold | hadded
    · exact absurd rfl (hnew row hold)
    · rw [List.mem_singleton.mp hadded]
      exact hfrozen

/-- Whatever the order of the operations, and whatever the reports: an Agent's timestamp
and version never go back, its effective roots are inside the selected ones, at most one
of its requests is open, none is created while a mode setup freezes it, and the selected
roots come from its first report or from a request that was applied when they were set. -/
theorem control_plane_history (ops : List Op) (agent : String) :
    (∀ earlier later, ops = earlier ++ later → Advances (run earlier) (run ops) agent) ∧
      (∀ state, getState (run ops) agent = some state → ∀ root ∈ state.report.effectiveRoots,
        ∃ selected ∈ state.selectedRoots, sourcePathWithin selected root = true) ∧
      ((run ops).requests.filter fun row => row.agentId == agent && row.status.isOpen).length ≤ 1 ∧
      (∀ earlier op later, ops = earlier ++ op :: later → ∀ row ∈ (run (earlier ++ [op])).requests,
        (∀ old ∈ (run earlier).requests, old.id ≠ row.id) →
        modeFrozen (run earlier) row.agentId row.createdAt = none) ∧
      ∀ state, getState (run ops) agent = some state →
        ∃ earlier op later, ops = earlier ++ op :: later ∧
        (∃ chosen, getState (run (earlier ++ [op])) agent = some chosen ∧
          chosen.selectedRoots = state.selectedRoots) ∧
        Chose (run earlier) (run (earlier ++ [op])) agent op state.selectedRoots := by
  have hinv := inv_run ops
  refine ⟨?_, ?_, hinv.single agent, ?_, fun state hstate => selected_run ops hstate⟩
  · rintro earlier later rfl
    rw [run, run, List.foldl_append]
    exact advances_run (inv_run earlier) later agent
  · intro state hstate root hroot
    have hinside := hinv.inside state (mem_of_getState hstate)
    simp only [inside, List.all_eq_true, List.any_eq_true] at hinside
    exact hinside root hroot
  · intro earlier op later _ row hrow hnew
    rw [run, List.foldl_append] at hrow
    exact created_unfrozen (inv_run earlier) op hrow hnew

end Pluton.SourceControl
