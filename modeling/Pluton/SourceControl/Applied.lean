-- SUMMARY: When an applied request has taken effect and stays applied, and when not.
import Pluton.Run
import Pluton.SourceControl.History

/-!
# Applied requests

A request that is applied should be in effect and should stay applied. A completion drops
a report that is not newer and still closes its request as applied; a delivery, or a
completion with another outcome, overwrites a request that a heartbeat has applied. What
holds is stated for the runs in which neither happens.
-/
namespace Pluton.SourceControl

variable {db db' : Tables} {agent : String} {now : Nat} {report : AcceptedReport}
  {input : Completion}

/-! ## The condition -/

/-- The request whose outcome a completion writes: every check has passed. -/
def committed (db : Tables) (input : Completion) : Option AgentSourceAccessRequest :=
  match db.commands.find? fun command => command.id == input.commandId &&
    command.agentId == input.agentId,
      getRequestForCommand db input.agentId input.commandId with
  | some command, some request =>
      if foreign command request input || command.state.terminal ||
          (request.kind == .modeSetup && request.status == .applied) || notLive command input ||
          payloadDiffers command request || validationInvalid request input then none
      else some request
  | _, _ => none

/-- The roots of the request are the selected ones already, or the report is one that
selects them: it is newer, its version is higher, its mode is known, and the request is
not closed in another way. -/
def takesEffect (db : Tables) (request : AgentSourceAccessRequest) (report : SourceAccessReport)
    (signedTimestamp : Int) :
    Bool :=
  (getState db request.agentId).all fun state =>
    sameSourceRoots state.selectedRoots request.roots ||
      (state.latestReportTimestamp < signedTimestamp &&
        state.report.effectiveVersion < report.effectiveVersion &&
        modeVerdict db request.agentId (some state) report state.selectedRoots != .unconfirmed &&
        [SourceAccessRequestStatus.queued, .validating, .applied].contains request.status)

/-- The Agent's state speaks for a delivery: its report is the one the request was made
for, and nothing stands against a removal of roots. -/
def deliverable (db : Tables) (request : AgentSourceAccessRequest) (now freshSince : Nat) : Bool :=
  (getState db request.agentId).any fun state =>
    !stalePolicy request state now freshSince && !removalConflict db request state

/-- A step that leaves what is applied in effect. -/
def keepsApplied (db : Tables) : Op → Bool
  | .complete input =>
      (committed db input).all fun request =>
        request.kind != .apply ||
          match input.success, input.report.filter (matchesAppliedReport request) with
          | true, some report => takesEffect db request report input.signedTimestamp
          | _, _ => request.status != .applied
  | .markDelivered agentId commandId now freshSince =>
      (getRequestForCommand db agentId commandId).all fun request =>
        request.kind != .apply || request.status != .applied ||
          stillApplied request (getState db agentId) ||
          deliverable db request now freshSince
  | _ => true

/-! ## Completions -/

theorem complete_committed (db : Tables) (input : Completion) :
    committed db input = none ∧ (complete db input).1.requests = db.requests ∨
      ∃ request, committed db input = some request ∧
        getRequestForCommand db input.agentId input.commandId = some request ∧
        (complete db input).1 = commit db request input := by
  unfold committed complete
  generalize List.find? _ db.commands = command
  generalize hrequest : getRequestForCommand db input.agentId input.commandId = request
  match command, request with
  | some command, some request =>
      dsimp only
      cases foreign command request input with
      | true => exact .inl ⟨rfl, rfl⟩
      | false =>
          cases command.state.terminal with
          | true => exact .inl ⟨rfl, rfl⟩
          | false =>
              cases request.kind == .modeSetup && request.status == .applied with
              | true => exact .inl ⟨rfl, rfl⟩
              | false =>
                  simp only [Bool.false_or, Bool.false_eq_true, if_false]
                  split
                  · exact .inl ⟨rfl, rfl⟩
                  · exact .inr ⟨request, rfl, rfl, rfl⟩
  | some command, none => exact .inl ⟨rfl, rfl⟩
  | none, some request => exact .inl ⟨rfl, rfl⟩
  | none, none => exact .inl ⟨rfl, rfl⟩

/-- The completion of an apply request is applied by a report that matches it. -/
theorem matches_of_outcome {request : AgentSourceAccessRequest} (hkind : request.kind = .apply)
    (happlied : (outcome request input).1 = .applied) :
    input.success = true ∧ ∃ report, input.report = some report ∧
    matchesAppliedReport request report = true := by
  unfold outcome at happlied
  have hsetup : (request.kind == .modeSetup) = false := by rw [hkind]; rfl
  have hvalidate : (request.kind == .validate) = false := by rw [hkind]; rfl
  simp only [hsetup, hvalidate, Bool.false_and, Bool.false_eq_true, if_false] at happlied
  split at happlied
  · next hcond =>
    simp only [Bool.and_eq_true, Option.any_eq_true] at hcond
    exact ⟨hcond.1.2, hcond.2⟩
  · split at happlied <;> cases happlied

/-! ## The selection after a completion -/

theorem requestOf_of_mem (hids : (db.requests.map (·.id)).Nodup) {row : AgentSourceAccessRequest}
    (hrow : row ∈ db.requests) :
    requestOf db row.agentId row.id = some row := by
  cases hfound : requestOf db row.agentId row.id with
  | none =>
      have hnone := List.find?_eq_none.mp hfound row hrow
      simp at hnone
  | some other =>
      obtain ⟨hmem, hid, -⟩ := mem_of_requestOf hfound
      rw [eq_of_id hids hmem hrow hid]

/-- The mode setup of a report leaves an open request open, or it is applied. -/
theorem mem_applySetup (now : Nat) (verdict : ModeVerdict) {request : AgentSourceAccessRequest}
    (hrequest : request ∈ db.requests)
    (hstatus : [SourceAccessRequestStatus.queued, .validating,
      .applied].contains request.status = true) :
    ∃ row ∈ (applySetup db now verdict).requests, SameInput request row ∧
      [SourceAccessRequestStatus.queued, .validating, .applied].contains row.status = true := by
  cases verdict with
  | unchanged => exact ⟨request, hrequest, .refl request, hstatus⟩
  | unconfirmed => exact ⟨request, hrequest, .refl request, hstatus⟩
  | confirmed setup =>
      by_cases hid : request.id = setup.id
      · exact ⟨_, Table.mem_update.mpr ⟨request, hrequest, if_pos (beq_iff_eq.mpr hid)⟩, rfl, rfl⟩
      · exact ⟨request, Table.mem_update.mpr ⟨request, hrequest, if_neg (by simpa using hid)⟩,
          .refl request, hstatus⟩

theorem applySetup_ids {verdict : ModeVerdict} (hids : (db.requests.map (·.id)).Nodup) :
    ((applySetup db now verdict).requests.map (·.id)).Nodup := by
  rw [ids_of_kept (applySetup_rewrites kept_applied)]
  exact hids

/-- A report of a higher version that a request accounts for selects its roots. -/
theorem writeSelection_selects {db₁ : Tables} (now : Nat) (hids : (db₁.requests.map (·.id)).Nodup)
    {request row : AgentSourceAccessRequest} {state : AgentSourceAccessState}
    (hmatch : matchesAppliedReport request report.toSourceAccessReport = true)
    (hrow : row ∈ db₁.requests) (hinput : SameInput request row)
    (hstatus : [SourceAccessRequestStatus.queued, .validating, .applied].contains row.status = true)
    (hversion : state.report.effectiveVersion < report.effectiveVersion) :
    (writeSelection db₁ request.agentId state report.toSourceAccessReport now true).2.2 =
      request.roots := by
  have hlast : report.lastAppliedRequestId = some request.id := by
    simp only [matchesAppliedReport, Bool.and_eq_true, beq_iff_eq] at hmatch
    exact hmatch.1.1.1.1.1.2
  have hfound :
      (given report.lastAppliedRequestId).bind (requestOf db₁ request.agentId) = some row := by
    have hrequest := requestOf_of_mem hids hrow
    rw [hinput.agentId, hinput.id] at hrequest
    rw [report.given_lastApplied hlast]
    exact hrequest
  have hconfirms : confirmsSelection row report.toSourceAccessReport = true := by
    simp only [confirmsSelection, hinput.matchesAppliedReport, hmatch, hstatus, Bool.and_self]
  unfold writeSelection
  rw [if_neg (by omega), if_pos hversion, hfound]
  simp only [hconfirms, Bool.and_self, if_true, hinput.roots]

theorem writeReport_selects (now : Nat) (hids : (db.requests.map (·.id)).Nodup)
    {request : AgentSourceAccessRequest} {state : AgentSourceAccessState} {signedTimestamp : Int}
    (hrequest : request ∈ db.requests)
    (hmatch : matchesAppliedReport request report.toSourceAccessReport = true)
    (hstatus : [SourceAccessRequestStatus.queued, .validating,
      .applied].contains request.status = true)
    (hstate : getState db request.agentId = some state)
    (htime : state.latestReportTimestamp < signedTimestamp)
    (hversion : state.report.effectiveVersion < report.effectiveVersion)
    (hmode : modeVerdict db request.agentId
      (some state) report.toSourceAccessReport state.selectedRoots ≠ .unconfirmed) :
    ∃ state',
      getState (writeReport db request.agentId report.toSourceAccessReport signedTimestamp now true)
        request.agentId = some state' ∧ state'.selectedRoots = request.roots := by
  have hnewer : dropped (some state) report.toSourceAccessReport signedTimestamp = false := by
    simp only [dropped, Option.any_some, Bool.or_eq_false_iff, Bool.and_eq_false_iff,
      decide_eq_false_iff_not]
    exact ⟨Int.not_le.mpr htime, .inl (Nat.not_lt.mpr (Nat.le_of_lt hversion))⟩
  unfold writeReport
  dsimp only
  rw [hstate, hnewer, keepAuthority_of_healthy (policyError_of_matches hmatch)]
  simp only [Bool.false_eq_true, if_false, Option.elim_some]
  generalize modeVerdict db request.agentId
    (some state) report.toSourceAccessReport state.selectedRoots = verdict at hmode
  obtain ⟨row, hrow, hinput, hrowStatus⟩ := mem_applySetup now verdict hrequest hstatus
  have hselects :=
    writeSelection_selects now (applySetup_ids hids) hmatch hrow hinput hrowStatus hversion
  cases verdict with
  | unconfirmed => exact absurd rfl hmode
  | unchanged => exact ⟨_, getState_putState_self _, hselects⟩
  | confirmed setup => exact ⟨_, getState_putState_self _, hselects⟩

/-- A report that names a request as applied is matched by that request only. -/
theorem eq_of_matches (hids : (db.requests.map (·.id)).Nodup)
    {request other : AgentSourceAccessRequest} {report : SourceAccessReport}
    (hrequest : request ∈ db.requests) (hother : other ∈ db.requests)
    (hmatch : matchesAppliedReport request report = true)
    (hmatch' : matchesAppliedReport other report = true) :
    other = request := by
  simp only [matchesAppliedReport, Bool.and_eq_true, beq_iff_eq] at hmatch hmatch'
  have hlast := hmatch.1.1.1.1.1.2
  rw [hmatch'.1.1.1.1.1.2] at hlast
  exact eq_of_id hids hother hrequest (Option.some.inj hlast)

/-- After the report of an applied request, if it takes effect, the roots of the request
are the selected ones. -/
theorem writeReport_takesEffect (now : Nat) (hids : (db.requests.map (·.id)).Nodup)
    {request : AgentSourceAccessRequest} {signedTimestamp : Int} (hrequest : request ∈ db.requests)
    (hmatch : matchesAppliedReport request report.toSourceAccessReport = true)
    (heffect : takesEffect db request report.toSourceAccessReport signedTimestamp = true) :
    ∃ state',
      getState (writeReport db request.agentId report.toSourceAccessReport signedTimestamp now true)
        request.agentId = some state' ∧
        sameSourceRoots state'.selectedRoots request.roots = true := by
  have hcases := writeReport_cases db request.agentId report signedTimestamp now true
  cases hstate : getState db request.agentId with
  | none =>
      -- The first report selects the paths that it has a status for: those of the request.
      have hpaths : sameSourceRoots report.paths request.roots = true := by
        simp only [matchesAppliedReport, Bool.and_eq_true] at hmatch
        exact sameSourceRoots_symm hmatch.1.2
      rw [hstate] at hcases
      rcases hcases with ⟨hdropped, -⟩ | ⟨-, accepted, roots, db₁, -, hwritten, hwrite⟩
      · cases hdropped
      · refine ⟨_, hwrite ▸ getState_putState_self _, ?_⟩
        cases hwritten with
        | first hnone hsame hroots => exact hpaths
        | kept hsome hversion hinside => rw [hstate] at hsome; cases hsome
        | chosen hsome hversion hallow hchosen hagent hmatch' hrow hinput happlied =>
            rw [hstate] at hsome; cases hsome
  | some state =>
      simp only [takesEffect, hstate, Option.all_some, Bool.or_eq_true,
        Bool.and_eq_true, decide_eq_true_eq, bne_iff_ne] at heffect
      rcases heffect with halready | ⟨⟨⟨htime, hversion⟩, hmode⟩, hstatus⟩
      · rcases hcases with ⟨-, hsame⟩ | ⟨-, accepted, roots, db₁, -, hwritten, hwrite⟩
        · exact ⟨state, (congrArg (getState · request.agentId) hsame).trans hstate, halready⟩
        · refine ⟨_, hwrite ▸ getState_putState_self _, ?_⟩
          cases hwritten with
          | first hnone hsame hroots => rw [hstate] at hnone; cases hnone
          | kept hsome hversion hinside =>
              cases hstate.symm.trans hsome
              exact halready
          | chosen hsome hversion hallow hchosen hagent hmatch' hrow hinput happlied =>
              rw [eq_of_matches hids hrequest hchosen hmatch hmatch']
              exact sameSourceRoots_self _
      · obtain ⟨state', hstate', hroots⟩ :=
          writeReport_selects now hids hrequest hmatch hstatus hstate htime hversion hmode
        exact ⟨state', hstate', hroots ▸ sameSourceRoots_self _⟩

theorem complete_takesEffect (hinv : Inv db) {request : AgentSourceAccessRequest}
    (hcommitted : committed db input = some request) (hkind : request.kind = .apply)
    (happlied : (outcome request input).1 = .applied)
    (hkeeps : keepsApplied db (.complete input) = true) :
    ∃ state, getState (step db (.complete input)) input.agentId = some state ∧
      sameSourceRoots state.selectedRoots request.roots = true := by
  rcases complete_committed db input with ⟨hnone, -⟩ | ⟨other, hother, hfound, hcommit⟩
  · rw [hcommitted] at hnone
    cases hnone
  · cases hcommitted.symm.trans hother
    obtain ⟨hmem, hagent, -⟩ := mem_of_getRequestForCommand hfound
    obtain ⟨hsuccess, report, hreport, hmatch⟩ := matches_of_outcome hkind happlied
    have heffect : takesEffect db request report input.signedTimestamp = true := by
      have hfilter : input.report.filter (matchesAppliedReport request) = some report := by
        simp [hreport, Option.filter, hmatch]
      simpa [keepsApplied, hcommitted, hkind, hsuccess, hfilter] using hkeeps
    obtain ⟨result, hresult, rfl⟩ := Option.map_eq_some_iff.mp hreport
    obtain ⟨state, hstate, hroots⟩ := writeReport_takesEffect input.now hinv.ids hmem hmatch heffect
    refine ⟨state, ?_, hroots⟩
    rw [step, hcommit, getState_congr commit_states, reportedTables, hreport,
      hkind, hsuccess, ← hagent]
    exact hstate

/-! ## Requests stay applied -/

/-- Every apply request that is applied stays so. -/
def Lasting (db db' : Tables) : Prop :=
  ∀ old ∈ db.requests, old.kind = .apply → old.status = .applied →
    ∃ row ∈ db'.requests, SameInput old row ∧ row.status = .applied

theorem Lasting.of_mem (h : ∀ old ∈ db.requests, old.kind = .apply → old.status = .applied →
    old ∈ db'.requests) :
    Lasting db db' :=
  fun old hold hkind happlied => ⟨old, h old hold hkind happlied, .refl old, happlied⟩

theorem Lasting.trans {db'' : Tables} (h : Lasting db db') (h' : Lasting db' db'') :
    Lasting db db'' := by
  intro old hold hkind happlied
  obtain ⟨row, hrow, hinput, hrowApplied⟩ := h old hold hkind happlied
  obtain ⟨row', hrow', hinput', hrowApplied'⟩ := h' row hrow (hinput.kind.trans hkind) hrowApplied
  exact ⟨row', hrow', hinput.trans hinput', hrowApplied'⟩

/-- The row has its outcome, and one that is applied keeps it. -/
structure Stays (row row' : AgentSourceAccessRequest) : Prop where
  input : SameInput row row'
  applied : row.status = .applied → row'.status = .applied

instance : IsPreorder _ Stays where
  refl row := ⟨.refl row, id⟩
  trans _ _ _ h h' := ⟨h.input.trans h'.input, fun happlied => h'.applied (h.applied happlied)⟩

theorem Lasting.of_stays (h : List.Forall₂ Stays db.requests db'.requests) : Lasting db db' := by
  intro old hold _ happlied
  obtain ⟨row, hrow, hstays⟩ := Except.forall₂_mem_left h hold
  exact ⟨row, hrow, hstays.input, hstays.applied happlied⟩

theorem stays_applied (row : AgentSourceAccessRequest) (code : String) (completedAt : Option Nat) :
    Stays row { row with status := .applied, resultCode := some code,
                         completedAt := completedAt } :=
  ⟨rfl, fun _ => rfl⟩

theorem mem_settle_of_ne {row : AgentSourceAccessRequest} {id : String}
    {status : SourceAccessRequestStatus} {code : String} {completedAt : Option Nat}
    (hrow : row ∈ db.requests) (hid : row.id ≠ id) :
    row ∈ (settle db id status code completedAt).requests :=
  Table.mem_update.mpr ⟨row, hrow, if_neg (by simpa using hid)⟩

theorem complete_lasting (hids : (db.requests.map (·.id)).Nodup)
    (hkeeps : keepsApplied db (.complete input) = true) :
    Lasting db (step db (.complete input)) := by
  rcases complete_committed db input with ⟨-, hsame⟩ | ⟨request, hcommitted, hfound, hcommit⟩
  · exact .of_mem fun old hold _ _ => (congrArg (old ∈ ·) hsame).mpr hold
  · intro old hold hkind happlied
    have hreported : List.Forall₂ Stays db.requests (reportedTables db request input).requests :=
      reportedTables_rewrites stays_applied
    obtain ⟨row, hrow, hstays⟩ := Except.forall₂_mem_left hreported hold
    rw [step, hcommit, commit_requests]
    by_cases hid : row.id = request.id
    · -- The outcome of the completion is that of the report, which the condition asks to match.
      have hsame : old = request :=
        eq_of_id hids hold (mem_of_getRequestForCommand hfound).1 (hstays.input.id.symm.trans hid)
      subst hsame
      refine ⟨_, Table.mem_update.mpr ⟨row, hrow, if_pos (beq_iff_eq.mpr hid)⟩,
        hstays.input.trans rfl, ?_⟩
      simp only [keepsApplied, hcommitted, hkind, happlied, Option.all_some, bne_self_eq_false,
        Bool.false_or] at hkeeps
      split at hkeeps
      · next report hsuccess hfilter =>
        obtain ⟨hreport, hmatch⟩ := Option.filter_eq_some_iff.mp hfilter
        have hverdict : (old.kind == .apply && input.success) = true := by
          rw [hkind, hsuccess]
          rfl
        rw [outcome_applied hreport hverdict hmatch]
      · cases hkeeps
    · exact ⟨row, Table.mem_update.mpr ⟨row, hrow, if_neg (by simpa using hid)⟩, hstays.input,
        hstays.applied happlied⟩

theorem rejection_of_deliverable {request : AgentSourceAccessRequest} {freshSince : Nat}
    (hkind : request.kind = .apply) (h : deliverable db request now freshSince = true) :
    rejection db request (getState db request.agentId) now freshSince = none := by
  simp only [deliverable, Option.any_eq_true, Bool.and_eq_true, Bool.not_eq_true'] at h
  obtain ⟨state, hstate, hfresh, hclear⟩ := h
  rw [hstate]
  simp only [rejection, hfresh, hkind, hclear, Bool.false_eq_true, if_false]

theorem markDelivered_lasting (hids : (db.requests.map (·.id)).Nodup) {commandId : String}
    {freshSince : Nat}
    (hkeeps : keepsApplied db (.markDelivered agent commandId now freshSince) = true) :
    Lasting db (step db (.markDelivered agent commandId now freshSince)) := by
  refine .of_mem fun old hold hkind happlied => ?_
  simp only [step]
  unfold markDelivered
  split
  · exact hold
  · next request hfound =>
    obtain ⟨hmem, hagent, -⟩ := mem_of_getRequestForCommand hfound
    dsimp only
    split
    · exact hold
    · split
      · exact hold
      · next hstill =>
        split
        · next code hrejection =>
          refine mem_settle_of_ne hold fun hid => ?_
          have hsame : old = request := eq_of_id hids hold hmem hid
          subst hsame
          have hdeliverable : deliverable db old now freshSince = true := by
            simpa [keepsApplied, hfound, hkind, happlied, hstill] using hkeeps
          rw [← hagent, rejection_of_deliverable hkind hdeliverable] at hrejection
          cases hrejection
        · refine Table.mem_update.mpr ⟨old, hold, if_neg ?_⟩
          simp [happlied]

theorem cancel_lasting (hids : (db.requests.map (·.id)).Nodup) {requestId : String} :
    Lasting db (step db (.cancel agent requestId now)) := by
  refine .of_mem fun old hold hkind happlied => ?_
  simp only [step]
  unfold cancel
  split
  · exact hold
  · next request hfound =>
    obtain ⟨hmem, hid, -⟩ := mem_of_requestOf hfound
    split
    · exact hold
    · next hstatus =>
      split
      · exact hold
      · split
        · exact hold
        · refine mem_settle_of_ne hold fun hsame => hstatus ?_
          rw [← eq_of_id hids hold hmem (hsame.trans hid.symm), happlied]
          rfl

theorem reconcile_lasting (hids : (db.requests.map (·.id)).Nodup) :
    Lasting db (step db (.reconcileTerminalRequests agent now)) := by
  refine .of_mem fun old hold hkind happlied => ?_
  -- The loop is about requests that are open, and an applied one is none of them.
  have hother : ∀ row ∈ openRows db agent, old.id ≠ row.1.id := by
    intro row hrow hid
    have hmem := (openRows_sublist db agent).subset (List.mem_map_of_mem hrow)
    have hopen := open_of_openRows hrow
    rw [← eq_of_id hids hold hmem hid, happlied] at hopen
    exact hopen.elim (by decide) (by decide)
  simp only [step, reconcileTerminalRequests]
  generalize getState db agent = state
  generalize openRows db agent = rows at hother
  clear hids
  induction rows generalizing db with
  | nil => exact hold
  | cons row rows ih =>
      exact ih (reconcileRow_mem hold (hother row List.mem_cons_self)) fun other hmem =>
        hother other (List.mem_cons_of_mem row hmem)

theorem lasting_step (hinv : Inv db) {op : Op} (hkeeps : keepsApplied db op = true) :
    Lasting db (step db op) := by
  cases op with
  | recordHeartbeat agentId report signedTimestamp now =>
      exact .of_stays (writeReport_rewrites stays_applied)
  | complete input => exact complete_lasting hinv.ids hkeeps
  | createRequest input =>
      cases hcreate : createRequest db input with
      | error failure =>
          exact .of_mem fun old hold _ _ => by simpa [step, hcreate, Except.toOption] using hold
      | ok db' =>
          obtain ⟨-, -, -, -, rfl⟩ := createRequest_ok hcreate
          exact .of_mem fun old hold _ _ => by simp [step, hcreate, Except.toOption, hold]
  | markDelivered agentId commandId now freshSince => exact markDelivered_lasting hinv.ids hkeeps
  | cancel agentId requestId now => exact cancel_lasting hinv.ids
  | reconcileTerminalRequests agentId now => exact reconcile_lasting hinv.ids
  | leaseNext agentId leaseOwner leaseMs now =>
      refine .of_mem fun old hold _ _ => ?_
      rw [step, (leaseNext_frame db agentId leaseOwner leaseMs now).1]
      exact hold
  | elsewhere commands identities plans backups => exact .of_mem fun old hold _ _ => hold

theorem lasting_run (hinv : Inv db) {ops : List Op}
    (h : Run.Along step (fun db op => keepsApplied db op = true) db ops) :
    Lasting db (ops.foldl step db) := by
  induction ops generalizing db with
  | nil => exact .of_mem fun old hold _ _ => hold
  | cons op ops ih => exact (lasting_step hinv h.1).trans (ih (hinv.step op) h.2)

/-! ## The runs in which applied means in effect -/

/-- Whenever a completion applies a request, its roots are selected after that step. -/
def InEffect (ops : List Op) : Prop :=
  ∀ earlier input later, ops = earlier ++ .complete input :: later → ∀ request,
    committed (run earlier) input = some request → request.kind = .apply →
    (outcome request input).1 = .applied →
    ∃ state, getState (run (earlier ++ [.complete input])) input.agentId = some state ∧
      sameSourceRoots state.selectedRoots request.roots = true

/-- A request that was applied once is applied ever after. -/
def StaysApplied (ops : List Op) : Prop :=
  ∀ earlier later, ops = earlier ++ later →
    ∀ request ∈ (run earlier).requests, request.kind = .apply →
    request.status = .applied → ∀ row ∈ (run ops).requests, row.id = request.id →
    row.status = .applied

/-- In a run whose completions take effect and whose deliveries and completions leave
what is applied, an applied request is in effect and stays applied. -/
theorem applied_in_effect (ops : List Op)
    (h : Run.Along step (fun db op => keepsApplied db op = true) {} ops) :
    InEffect ops ∧ StaysApplied ops := by
  constructor
  · rintro earlier input later rfl request hcommitted hkind happlied
    have hkeeps := ((Run.along_append.mp h).2).1
    rw [run, List.foldl_append]
    exact complete_takesEffect (inv_run earlier) hcommitted hkind happlied hkeeps
  · rintro earlier later rfl request hrequest hkind happlied row hrow hid
    have hlater := (Run.along_append.mp h).2
    obtain ⟨row', hrow', hinput, happlied'⟩ :=
      lasting_run (inv_run earlier) hlater request hrequest hkind happlied
    have hsame : row = row' := by
      refine eq_of_id (inv_run (earlier ++ later)).ids hrow ?_ (hid.trans hinput.id.symm)
      rw [run, List.foldl_append]
      exact hrow'
    rw [hsame]
    exact happlied'

/-! ## One request -/

namespace Sample

/-- The report of an Agent whose policy approves two roots. -/
def reportOf (revision : Char) (effectiveVersion : Nat) (roots : List String)
    (lastApplied : Option String) :
    SourceAccessReport where
  hostPolicyRevision := String.ofList (List.replicate 64 revision)
  effectiveVersion := effectiveVersion
  approvedRoots := ["/srv/app", "/srv/db"]
  effectiveRoots := roots
  rootStatuses := roots.map fun root => { path := root, status := .readable }
  lastAppliedRequestId := lastApplied

def before : AcceptedReport := ⟨reportOf 'a' 0 ["/srv/app"] none, by decide +kernel⟩

def after : AcceptedReport := ⟨reportOf 'a' 1 ["/srv/app", "/srv/db"] (some "r"), by decide +kernel⟩

/-- The same selection under another host policy. -/
def changed : AcceptedReport :=
  ⟨reportOf 'b' 1 ["/srv/app", "/srv/db"] (some "r"), by decide +kernel⟩

def request : CreateRequest where
  id := "r"
  commandId := "c"
  agentId := "a"
  deviceId := "d"
  kind := .apply
  expectedVersion := 0
  expectedHostPolicyRevision := String.ofList (List.replicate 64 'a')
  roots := ["/srv/app", "/srv/db"]
  confirmedAffectedPlanIds := []
  now := 1000
  freshSince := 0

/-- The Agent reports one root, is asked to add another one, and has taken the command. -/
def delivered : List Op :=
  [.elsewhere [] [{ agentId := "a", deviceId := "d", sourceAccessVersion := some 1,
                    lastSeen := some 1000 }] [] [],
    .recordHeartbeat "a" before 10 1000, .createRequest request, .leaseNext "a" "first" 60000 1000,
    .markDelivered "a" "c" 1000 0]

def completion : Completion where
  agentId := "a"
  commandId := "c"
  leaseToken := "first"
  sequence := 1
  success := true
  result := some { sourceAccess := after }
  signedTimestamp := 20
  now := 3000

/-- The completion is signed after the last heartbeat. -/
def inOrder : List Op := delivered ++ [.complete completion]

/-- A heartbeat that was signed after the completion comes before it. -/
def overtaken : List Op := delivered ++ [.recordHeartbeat "a" before 30 2000, .complete completion]

/-- A heartbeat reports the request as applied, the host's policy changes, and the lease
of the command runs out. -/
def redelivered : List Op :=
  delivered ++ [.recordHeartbeat "a" after 20 2000, .recordHeartbeat "a" changed 30 3000,
    .leaseNext "a" "second" 60000 100000, .markDelivered "a" "c" 100000 0]

end Sample

theorem applied_in_effect_of_inOrder :
    Run.Along step (fun db op => keepsApplied db op = true) {} Sample.inOrder ∧
      InEffect Sample.inOrder ∧ StaysApplied Sample.inOrder :=
  have h : Run.Along step (fun db op => keepsApplied db op = true) {} Sample.inOrder := by
    decide +kernel
  ⟨h, applied_in_effect Sample.inOrder h⟩

/-- The completion that was overtaken applies its request while one root stays selected;
the request that is delivered again is rejected after it was applied. -/
theorem applied_without_effect :
    ¬ InEffect Sample.overtaken ∧ ¬ StaysApplied Sample.redelivered := by
  constructor
  · intro h
    have hcommitted : ∃ row,
        committed (run (Sample.delivered ++ [.recordHeartbeat "a" Sample.before 30 2000]))
        Sample.completion = some row ∧ row.kind = .apply ∧
          (outcome row Sample.completion).1 = .applied ∧
        (getState (run Sample.overtaken) "a").all fun state =>
          !sameSourceRoots state.selectedRoots row.roots := by
      refine ⟨_, rfl, ?_⟩
      decide +kernel
    obtain ⟨row, hrow, hkind, happlied, hroots⟩ := hcommitted
    obtain ⟨state, hstate, hsame⟩ := h _ Sample.completion [] rfl row hrow hkind happlied
    have hstate' : getState (run Sample.overtaken) "a" = some state := hstate
    rw [hstate', Option.all_some, hsame] at hroots
    cases hroots
  · intro h
    have hrows : ∃ request ∈
        (run (Sample.delivered ++ [.recordHeartbeat "a" Sample.after 20 2000])).requests,
        request.kind = .apply ∧ request.status = .applied ∧
          ∃ row ∈ (run Sample.redelivered).requests,
            row.id = request.id ∧ row.status = .rejected := by decide +kernel
    obtain ⟨request, hrequest, hkind, happlied, row, hrow, hid, hrejected⟩ := hrows
    have hstays :=
      h _ [.recordHeartbeat "a" Sample.changed 30 3000, .leaseNext "a" "second" 60000 100000,
        .markDelivered "a" "c" 100000 0] rfl request hrequest hkind happlied row hrow hid
    rw [hrejected] at hstays
    cases hstays

end Pluton.SourceControl
