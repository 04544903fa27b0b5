-- SUMMARY: After a crash a report grants the old selection, the new one or nothing.
import Pluton.SourceAccess.Writers

/-!
# Crashes during `apply`

`apply` is cut after any of its file operations, while the host may change its policy; the
crash keeps or undoes each change that was not synced. The report that a new process then
gives has no third outcome besides the two selections and an error.
-/
namespace Pluton.SourceAccess

open Disk (Entry Written)
open Disk.Entry (settled all_settled all_set)
open Except (bind_eq_ok)

variable {ctx : Context} {w : World} {P : Pending → Prop} {s : State} {p : Pending} {d : DataDir}

/-! ## While an `apply` runs -/

/-- Events beside a running `apply`: its own steps, reports, the host, the end of the process. -/
def Event.isBeside : Event → Bool
  | .advance _ | .report _ | .approval _ _ _ | .mode _ _ _ | .receipt _ _ | .restart => true
  | .check _ _ | .recover _ _ _ _ | .crash _ => false

/-- The selection that is seen is the old one or that of a request in `Q`, and only such
a request is running. -/
structure Between (ctx : Context) (old : Option Selection) (Q : Pending → Prop) (s : State) :
    Prop where
  selection : s.data.selection.now = old ∨ ∃ p, Q p ∧ s.data.selection.now = some (p.selection ctx)
  applying : ∀ a, s.applying = some a → Q a.pending

variable {old : Option Selection} {Q : Pending → Prop}

theorem Between.stop (h : Between ctx old Q s) (code : Code) : Between ctx old Q (s.stop code) :=
  ⟨h.selection, fun a ha => by cases ha⟩

theorem Between.proceed (h : Between ctx old Q s) (hp : Q p) {data : DataDir} (phase : Phase)
    (hdata : data.selection.now = s.data.selection.now) :
    Between ctx old Q (s.proceed p phase data) :=
  ⟨by rw [State.proceed, hdata]; exact h.selection, fun a ha => by cases ha; exact hp⟩

theorem between_write (hp : Q p) (phase : Phase) (io : Io) {data : DataDir}
    (hdata : data.selection.now = old ∨ ∃ p, Q p ∧ data.selection.now = some (p.selection ctx)) :
    Between ctx old Q (s.write p phase io data) := by
  unfold State.write
  split
  · exact ⟨hdata, fun a ha => by cases ha; exact hp⟩
  · exact ⟨hdata, fun a ha => by cases ha⟩

theorem refence_selection (d : DataDir) (fence : Transaction) (written : Written) :
    (d.refence fence written).selection.now = d.selection.now := by
  cases written <;> rfl

theorem between_advance (h : Between ctx old Q s) (io : Io) :
    Between ctx old Q (s.advance ctx io) := by
  unfold State.advance
  split
  · exact h
  · rename_i p happ
    split
    · exact h.stop _
    · exact h.proceed (h.applying _ happ) _ rfl
  · rename_i p happ
    split
    · exact h.stop _
    · exact h.proceed (h.applying _ happ) _ rfl
  · rename_i p happ
    split
    · exact h.stop _
    · exact h.proceed (h.applying _ happ) _ rfl
  · rename_i p happ
    split
    · exact h.stop _
    · split
      · exact h.proceed (h.applying _ happ) _ rfl
      · exact between_write (h.applying _ happ) _ io h.selection
  · rename_i p happ
    have hp : Q p := h.applying _ happ
    split
    · exact h.stop _
    · -- the one step that changes the selection
      refine between_write hp _ io ?_
      cases io.written with
      | durable => exact .inr ⟨p, hp, rfl⟩
      | lost => exact h.selection
      | unsynced => exact .inr ⟨p, hp, rfl⟩
  · rename_i p happ
    split
    · exact h.stop _
    · split
      · split
        · exact h.stop _
        · exact h.proceed (h.applying _ happ) _ rfl
      · exact h.stop _
  · split
    · exact ⟨h.selection, fun a ha => by cases ha⟩
    · exact ⟨by rw [State.stop, refence_selection]; exact h.selection, fun a ha => by cases ha⟩

theorem consume_selection (d : DataDir) (receipt : Receipt) (written : Written) :
    (d.consume receipt written).selection.now = d.selection.now := by
  cases written <;> rfl

theorem HostFrame.between {s' : State} (hframe : HostFrame s s') (h : Between ctx old Q s) :
    Between ctx old Q s' := by
  refine ⟨?_, fun a ha => h.applying a (hframe.applying ▸ ha)⟩
  rcases hframe.data with hdata | ⟨receipt, written, hdata⟩
  · exact hdata ▸ h.selection
  · rw [hdata, consume_selection]
    exact h.selection

theorem between_step (h : Between ctx old Q s) {e : Event} (he : e.isBeside = true) :
    Between ctx old Q (step ctx s e) := by
  cases e with
  | advance io => exact between_advance h io
  | report w => exact h
  | approval w input io => exact (hostFrame_approval input io).between h
  | mode w input io => exact (hostFrame_mode input io).between h
  | receipt receipt written => exact (hostFrame_consume receipt written).between h
  | restart => exact ⟨h.selection, fun a ha => by cases ha⟩
  | check w payload => cases he
  | recover w own input io => cases he
  | crash picks => cases he

theorem between_run (h : Between ctx old Q s) {events : List Event}
    (he : ∀ e ∈ events, e.isBeside = true) :
    Between ctx old Q (run ctx s events) := by
  induction events generalizing s with
  | nil => exact h
  | cons e events ih =>
      rw [List.forall_mem_cons] at he
      exact ih (between_step h he.1) he.2

/-- A call of `apply` on an idle Agent starts the request that passes its checks, if any. -/
theorem between_check (happ : s.applying = none) (payload : Payload) :
    Between ctx s.data.selection.now (fun p => checkApply ctx w s payload = .ready p)
      (s.check ctx w payload) := by
  unfold State.check
  rw [if_neg (by simp [happ])]
  split
  · exact ⟨.inl rfl, fun a ha => by cases ha⟩
  · exact ⟨.inl rfl, fun a ha => by rw [happ] at ha; cases ha⟩
  · rename_i p hready
    exact ⟨.inl rfl, fun a ha => by cases ha; exact hready⟩

/-! ## After the crash -/

/-- A report that a crash lets through reads a selection that was not in doubt. -/
theorem crash_selection (h : Good ctx P s) (picks : Picks)
    (herror : ((s.crash picks).report ctx w).policyError = none) :
    (s.crash picks).data.selection.now = s.data.selection.now := by
  obtain ⟨-, -, -, -, hmarker, -⟩ := report_ok herror
  have hquiet := h.files.quiet.resolve_left fun hall => by
    have hsome := (hall.crash picks.transaction).1
    rw [show (s.data.transaction.crash picks.transaction).now = none from hmarker] at hsome
    cases hsome
  change (s.data.selection.crash picks.selection).now = s.data.selection.now
  rw [Disk.Entry.eq_settled hquiet.1, Disk.Entry.crash_settled]

/-! ## The anchor -/

/-- The anchor is on disk, or there is no selection and the marker stays. -/
def Anchored (ctx : Context) (d : DataDir) : Prop :=
  d.anchor = settled (some ctx.agentId) ∨ d.transaction.All (·.isSome) ∧ d.selection.All (· = none)

theorem anchored_of_seen (h : Good ctx P s) (hseen : s.data.anchor.now ≠ none) :
    Anchored ctx s.data := by
  obtain ⟨id, hid⟩ := Option.ne_none_iff_exists'.mp hseen
  have hsettled : s.data.anchor.before = [] →
      s.data.anchor = settled (some ctx.agentId) := fun hbefore => by
    rw [Disk.Entry.eq_settled hbefore, hid, h.files.anchor.1 id hid]
  rcases h.files.anchored with hnone | hanchor
  · rcases h.files.quiet with hmarked | hquiet
    · exact .inr ⟨hmarked, hnone⟩
    · exact .inl (hsettled hquiet.2)
  · exact .inl hanchor

theorem Anchored.sync (h : Anchored ctx d) : Anchored ctx d.sync :=
  h.imp (fun hanchor => by rw [DataDir.sync, hanchor]; rfl) fun hboth =>
    ⟨hboth.1.sync, hboth.2.sync⟩

theorem Anchored.consume (h : Anchored ctx d) (receipt : Receipt) (written : Written) :
    Anchored ctx (d.consume receipt written) := by
  unfold DataDir.consume
  split
  · exact Anchored.sync (d := { d with modeSetup := _ }) h
  · exact h

theorem write_data (p : Pending) (phase : Phase) (io : Io) (d : DataDir) :
    (s.write p phase io d).data = if io.written = .durable then d.sync else d := by
  unfold State.write
  cases io.written <;> rfl

theorem anchored_write (h : Anchored ctx d) (p : Pending) (phase : Phase) (io : Io) :
    Anchored ctx (s.write p phase io d).data := by
  rw [write_data]
  split
  · exact h.sync
  · exact h

theorem refence_anchor {file : Option String} (h : d.anchor = settled file) (fence : Transaction)
    (written : Written) :
    (d.refence fence written).anchor = settled file := by
  cases written with
  | durable => exact congrArg Entry.sync h
  | lost => exact h
  | unsynced => exact h

theorem anchored_advance (h : Good ctx P s) (ha : Anchored ctx s.data) (io : Io) :
    Anchored ctx (s.advance ctx io).data := by
  unfold State.advance
  split
  · exact ha
  · rename_i p happ
    obtain ⟨-, hmissing, -⟩ := h.applying _ happ
    split
    · exact ha
    -- No transaction is on disk yet, so the anchor itself must be there.
    · refine .inl (ha.resolve_right fun hboth => ?_)
      have hsome := hboth.1.1
      rw [hmissing] at hsome
      cases hsome
  · split
    · exact ha
    · exact ha.imp id fun hboth => ⟨hboth.1.refill rfl, hboth.2⟩
  · split
    · exact ha
    · exact ha.sync
  · rename_i p happ
    split
    · exact ha
    · split
      · exact ha
      · rename_i hmissing
        refine anchored_write ?_ p _ io
        -- The anchor is missing here; while its write may be lost, there is no selection yet.
        cases hwritten : io.written with
        | durable => exact .inl rfl
        | lost => exact ha
        | unsynced =>
            refine .inr (ha.resolve_left fun hanchor => ?_)
            rw [hanchor] at hmissing
            exact hmissing rfl
  · rename_i p happ
    obtain ⟨-, -, -, hanchor⟩ := h.applying _ happ
    split
    · exact ha
    · refine anchored_write ?_ p _ io
      exact .inl hanchor
  · rename_i p happ
    obtain ⟨-, hfin⟩ := h.applying _ happ
    split
    · exact ha
    · split
      · split
        · exact ha
        -- The selection is stored by now, so the anchor is on disk.
        · exact .inl hfin.anchor
      · exact ha
  · rename_i p fence happ
    obtain ⟨-, -, hfin⟩ := h.applying _ happ
    split
    · exact ha.sync
    · exact .inl (refence_anchor hfin.anchor fence _)

theorem check_data (payload : Payload) : (s.check ctx w payload).data = s.data := by
  unfold State.check
  split
  · rfl
  · split <;> rfl

theorem HostFrame.anchored {s' : State} (hframe : HostFrame s s') (ha : Anchored ctx s.data) :
    Anchored ctx s'.data := by
  rcases hframe.data with hdata | ⟨receipt, written, hdata⟩
  · exact hdata ▸ ha
  · exact hdata ▸ ha.consume receipt written

theorem anchored_recover (ha : Anchored ctx s.data) (own : Bool) (input : RecoverInput)
    (io : RecoverIo) :
    Anchored ctx (s.recoverSelection ctx w own input io).data := by
  unfold State.recoverSelection
  split
  · exact ha
  · rename_i marker hcheck
    obtain ⟨-, sel, hsel, -⟩ := checkRecover_ok hcheck
    -- a selection was found, so the anchor is there
    have hanchor : s.data.anchor = settled (some ctx.agentId) := ha.resolve_right fun hboth => by
      have hnone := hboth.2.1
      rw [hsel] at hnone
      cases hnone
    have hsync : s.data.anchor.sync = settled (some ctx.agentId) := congrArg Entry.sync hanchor
    split
    · exact ha
    · split
      · exact ha.sync
      · dsimp only
        split
        · exact .inl (congrArg Entry.sync hsync)
        · exact .inl (refence_anchor hsync marker _)

theorem anchored_step (h : Good ctx P s) (ha : Anchored ctx s.data) (e : Event) :
    Anchored ctx (step ctx s e).data := by
  cases e with
  | check w payload =>
      rw [step, check_data]
      exact ha
  | advance io => exact anchored_advance h ha io
  | report w => exact ha
  | approval w input io => exact (hostFrame_approval input io).anchored ha
  | mode w input io => exact (hostFrame_mode input io).anchored ha
  | receipt receipt written => exact (hostFrame_consume receipt written).anchored ha
  | recover w own input io => exact anchored_recover ha own input io
  | restart => exact ha
  | crash picks =>
      refine ha.imp (fun hanchor => ?_) fun hboth => ⟨hboth.1.crash _, hboth.2.crash _⟩
      change s.data.anchor.crash picks.anchor = _
      rw [hanchor, Disk.Entry.crash_settled]

/-- Once the anchor was seen, it or the marker stays through every further event. -/
theorem anchored_run {policy : Option PolicyFile} {events : List Event}
    (ha : Anchored ctx (run ctx (start policy) events).data) (later : List Event) :
    Anchored ctx (run ctx (run ctx (start policy) events) later).data := by
  induction later generalizing events with
  | nil => exact ha
  | cons e later ih =>
      have hstep : Anchored ctx (run ctx (start policy) (events ++ [e])).data := by
        rw [run_append]
        exact anchored_step (good_run policy events) ha e
      have hrest := ih hstep
      rw [run_append] at hrest
      exact hrest

/-! ## Recoveries -/

def Event.isRecovery : Event → Bool
  | .recover _ _ _ _ => true
  | _ => false

/-- The selection is still that of `f`; the marker is too, or it announced that selection. -/
structure Recovering (f s : State) : Prop where
  selection : s.data.selection.now = f.data.selection.now
  transaction : s.data.transaction.now = f.data.transaction.now ∨
    ∃ marker sel, f.data.transaction.now = some (.whole marker) ∧ f.data.selection.now = some sel ∧
      sel.effectiveVersion = marker.expectedVersion + 1

variable {f : State}

theorem recovering_step (h : Recovering f s) (own : Bool) (input : RecoverInput) (io : RecoverIo) :
    Recovering f (s.recoverSelection ctx w own input io) := by
  unfold State.recoverSelection
  split
  · exact h
  · rename_i marker hcheck
    obtain ⟨hmarker, sel, hsel, hversion⟩ := checkRecover_ok hcheck
    have hmatch : ∃ marker sel, f.data.transaction.now = some (.whole marker) ∧
        f.data.selection.now = some sel ∧ sel.effectiveVersion = marker.expectedVersion + 1 := by
      rcases h.transaction with hsame | hmatch
      · exact ⟨marker, sel, hsame ▸ hmarker, h.selection ▸ hsel, hversion⟩
      · exact hmatch
    split
    · exact h
    · split
      · exact ⟨h.selection, h.transaction⟩
      · dsimp only
        split
        · exact ⟨h.selection, .inr hmatch⟩
        · exact ⟨(refence_selection _ _ _).trans h.selection, .inr hmatch⟩

theorem recovering_run (h : Recovering f s) {events : List Event}
    (he : ∀ e ∈ events, e.isRecovery = true) :
    Recovering f (run ctx s events) := by
  induction events generalizing s with
  | nil => exact h
  | cons e events ih =>
      rw [List.forall_mem_cons] at he
      cases e with
      | recover w own input io => exact ih (recovering_step h own input io) he.2
      | _ => cases he.1

theorem recoverSelection_unmarked (h : s.data.transaction.now = none) (own : Bool)
    (input : RecoverInput) (io : RecoverIo) : s.recoverSelection ctx w own input io = s := by
  unfold State.recoverSelection
  split
  · rfl
  · rename_i marker hcheck
    rw [(checkRecover_ok hcheck).1] at h
    cases h

theorem recoveries_unmarked (h : s.data.transaction.now = none) {events : List Event}
    (he : ∀ e ∈ events, e.isRecovery = true) : run ctx s events = s := by
  induction events with
  | nil => rfl
  | cons e events ih =>
      rw [List.forall_mem_cons] at he
      cases e with
      | recover w own input io =>
          change run ctx (s.recoverSelection ctx w own input io) events = s
          rw [recoverSelection_unmarked h]
          exact ih he.2
      | _ => cases he.1

/-- A marker and a selection one version later are of the same request. -/
theorem applied_of_match (h : Good ctx P s) {marker : Transaction} {sel : Selection}
    (hmarker : s.data.transaction.now = some (.whole marker))
    (hsel : s.data.selection.now = some sel)
    (hversion : sel.effectiveVersion = marker.expectedVersion + 1) :
    ∃ p, P p ∧ s.data.transaction.now = some (.whole (p.transaction ctx)) ∧
      s.data.selection.now = some (p.selection ctx) := by
  obtain ⟨p, hp, rfl, hupTo⟩ := h.files.marker.1 marker hmarker
  refine ⟨p, hp, hmarker, ?_⟩
  rcases hupTo.1 sel hsel with rfl | hle
  · exact hsel
  · rw [hversion] at hle
    exact absurd hle (Nat.not_succ_le_self _)

/-! ## The three outcomes -/

/-- The report names an error and grants nothing. -/
def SourceAccessReport.Fenced (r : SourceAccessReport) : Prop :=
  r.policyError ≠ none ∧ r.effectiveRoots = []

/-- The report grants exactly what the host's policy leaves of the selection `sel`. -/
def State.Grants (ctx : Context) (w : World) (s : State) (sel : Option Selection) : Prop :=
  ∃ policy, hostPolicy ctx w false s.host = .ok policy ∧ (s.report ctx w).policyError = none ∧
    (s.report ctx w).effectiveRoots = effectiveRoots w policy sel

theorem fenced_or_grants (ctx : Context) (w : World) (s : State) :
    (s.report ctx w).Fenced ∨ s.data.transaction.now = none ∧
    s.Grants ctx w s.data.selection.now := by
  by_cases herror : (s.report ctx w).policyError = none
  · obtain ⟨policy, hpolicy, -, -, hmarker, -, -, -, -, hroots⟩ := report_ok herror
    exact .inr ⟨hmarker, policy, hpolicy, herror, hroots⟩
  · exact .inl ⟨herror, effectiveRoots_of_policyError herror⟩

/-- A cut of `apply` at any of its steps, whatever the disk keeps of them. -/
theorem cut_apply (hgood : Good ctx P s) (happ : s.applying = none) (w w' : World)
    (payload : Payload) {during : List Event} (hduring : ∀ e ∈ during, e.isBeside = true)
    (picks : Picks) :
    let f := (run ctx s (.check w payload :: during)).crash picks
    (f.report ctx w').Fenced ∨ f.Grants ctx w' s.data.selection.now ∨
      ∃ p, checkApply ctx w s payload = .ready p ∧ f.Grants ctx w' (some (p.selection ctx)) := by
  intro f
  have hcut := good_run_of (hgood.mono fun _ _ => trivial) (.check w payload :: during)
  have hbetween : Between ctx s.data.selection.now (fun p => checkApply ctx w s payload = .ready p)
      (run ctx s (.check w payload :: during)) := between_run (between_check happ payload) hduring
  rcases fenced_or_grants ctx w' f with hfenced | ⟨-, hgrants⟩
  · exact .inl hfenced
  · right
    obtain ⟨policy, -, herror, -⟩ := id hgrants
    have hsame : f.data.selection.now =
        (run ctx s (.check w payload :: during)).data.selection.now :=
      crash_selection hcut picks herror
    rw [hsame] at hgrants
    rcases hbetween.selection with hold | ⟨p, hready, hnew⟩
    · exact .inl (hold ▸ hgrants)
    · exact .inr ⟨p, hready, hnew ▸ hgrants⟩

/-- What reports and recoveries make of a crash, in every run. An `apply` that is cut
leaves the old selection, its own or an error; where an anchor was seen, a report is never
about the configured roots again; recoveries only complete the request whose marker was
left, and only if its selection is on disk. -/
theorem apply_crash_safe (ctx : Context) (policy : Option PolicyFile) (prior : List Event) :
    let s := run ctx (start policy) prior
    (∀ w payload during picks w', s.applying = none → (∀ e ∈ during, e.isBeside = true) →
      let f := (run ctx s (.check w payload :: during)).crash picks
      (f.report ctx w').Fenced ∨ f.Grants ctx w' s.data.selection.now ∨
        ∃ p, checkApply ctx w s payload = .ready p ∧ f.Grants ctx w' (some (p.selection ctx))) ∧
    (∀ later w', s.data.anchor.now ≠ none →
      let t := run ctx s later
      (t.report ctx w').Fenced ∨
        ∃ sel, t.data.selection.now = some sel ∧ t.Grants ctx w' (some sel)) ∧
    ∀ recoveries w', (∀ e ∈ recoveries, e.isRecovery = true) →
      let t := (run ctx s recoveries).restart
      (s.data.transaction.now = none → t.data = s.data) ∧
      (s.data.transaction.now ≠ none → (t.report ctx w').Fenced ∨
        ∃ p, Applied ctx (start policy) prior p ∧
          s.data.transaction.now = some (.whole (p.transaction ctx)) ∧
          s.data.selection.now = some (p.selection ctx) ∧
          t.Grants ctx w' (some (p.selection ctx))) := by
  intro s
  have hgood : Good ctx (Applied ctx (start policy) prior) s := good_run policy prior
  refine ⟨?_, ?_, ?_⟩
  · intro w payload during picks w' happ hduring
    exact cut_apply hgood happ w w' payload hduring picks
  · intro later w' hseen t
    have hanchored : Anchored ctx t.data := anchored_run (anchored_of_seen hgood hseen) later
    rcases fenced_or_grants ctx w' t with hfenced | ⟨hunmarked, hgrants⟩
    · exact .inl hfenced
    · right
      -- the marker is gone, so the anchor is on disk, and a reader then insists on a selection
      have hanchor := hanchored.resolve_right fun hboth => by
        have hsome := hboth.1.1
        rw [hunmarked] at hsome
        cases hsome
      obtain ⟨-, -, herror, -⟩ := id hgrants
      obtain ⟨-, -, hselection, -⟩ := report_ok herror
      have hboth := (selection_ok hselection).2
      rw [hanchor] at hboth
      obtain ⟨sel, hsel⟩ := Option.isSome_iff_exists.mp hboth.symm
      exact ⟨sel, hsel, hsel ▸ hgrants⟩
  · intro recoveries w' hrecoveries t
    refine ⟨fun hunmarked => ?_, fun hmarked => ?_⟩
    · change (run ctx s recoveries).data = s.data
      rw [recoveries_unmarked hunmarked hrecoveries]
    · have hrecovering : Recovering s (run ctx s recoveries) :=
        recovering_run ⟨rfl, .inl rfl⟩ hrecoveries
      rcases fenced_or_grants ctx w' t with hfenced | ⟨hunmarked, hgrants⟩
      · exact .inl hfenced
      · right
        have hmatch := hrecovering.transaction.resolve_left fun hsame => hmarked (hsame ▸ hunmarked)
        obtain ⟨marker, sel, hmarker, hsel, hversion⟩ := hmatch
        obtain ⟨p, hp, htransaction, hselection⟩ := applied_of_match hgood hmarker hsel hversion
        refine ⟨p, hp, htransaction, hselection, ?_⟩
        have hsame : t.data.selection.now = some (p.selection ctx) :=
          hrecovering.selection.trans hselection
        exact hsame ▸ hgrants

/-! ## A first application, cut after its selection was written -/

/-- The marker, its content and sync, the anchor and the selection; then the machine stops. -/
def sampleCut : List Event :=
  .check sampleWorld (.body sampleRequest) :: List.replicate 5 (.advance stepDone) ++
    [.crash ⟨0, 0, 0, 0, 0, 0⟩]

def sampleRecovery : Event :=
  .recover sampleWorld false ⟨"agent-1", revision0, "request-1"⟩ ⟨true, true, true, .durable⟩

/-- The marker of an admitted request is small enough for its reader. -/
theorem fits_transaction {t : Transaction} (hagent : Js.byteLength (Js.quote t.agentId) ≤ 1024)
    (hversion : t.expectedVersion ≤ Js.maxSafeInteger) (hid : isRequestId t.requestId = true)
    (hrevision : isRevision t.hostPolicyRevision = true) (hlen : t.roots.length ≤ maxRoots)
    (hroots : ∀ root ∈ t.roots, isSourcePath root = true) : fits t.text = true := by
  have hidSize := Js.byteLength_quote_le t.requestId
  have hrevisionSize := Js.byteLength_quote_le t.hostPolicyRevision
  have hversionSize := Js.byteLength_toString_le hversion
  have hrootsSize := byteLength_rootsText hlen hroots
  simp only [isRequestId, Bool.and_eq_true, decide_eq_true_eq] at hid
  simp only [isRevision, Bool.and_eq_true, beq_iff_eq] at hrevision
  have hnames : Js.byteLength (Js.quote "version") + Js.byteLength (Js.quote "agentId") +
      Js.byteLength (Js.quote "requestId") + Js.byteLength (Js.quote "expectedVersion") +
      Js.byteLength (Js.quote "hostPolicyRevision") +
        Js.byteLength (Js.quote "roots") + Js.byteLength "1" +
      Js.byteLength "\n" ≤ 200 := by
    decide +kernel
  have hle : Js.byteLength t.text ≤ _ := Js.byteLength_stringify_le _
  simp only [List.map_cons, List.map_nil, List.sum_cons, List.sum_nil] at hle
  unfold fits maxFile
  rw [Js.byteLength_append, decide_eq_true_eq]
  omega

def sampleRecoverInput : RecoverInput := ⟨"agent-1", revision0, "request-1"⟩

/-- The request with the epoch of the configured root. -/
def samplePending : Pending := ⟨sampleRequest, [("/srv/app", 0)]⟩

/-- The state of the cut. -/
def sampleStopped : State :=
  run sampleContext { start none with applying := some ⟨samplePending, .checked⟩ }
    (List.replicate 5 (.advance stepDone) ++ [.crash ⟨0, 0, 0, 0, 0, 0⟩])

/-- The state after the recovery, in the process of the operator. -/
def sampleRecovered : State :=
  let data :=
    { sampleStopped.data.sync with transaction := sampleStopped.data.sync.transaction.set none }
  { sampleStopped with data := data.sync, latched := sampleStopped.latched && !false }

/-- What the checks of the run come to. -/
structure SampleChecks : Prop where
  paths : sampleRequest.roots.all isSourcePath = true
  requestId : isRequestId "request-1" = true
  revision : isRevision revision0 = true
  ready : checkApply sampleContext sampleWorld (start none) (.body sampleRequest) =
    .ready samplePending
  operator : requireOperator sampleContext "agent-1" = .ok ()
  policy : hostPolicy sampleContext sampleWorld false (start none).host = .ok samplePolicy0
  recoverable : recoverable sampleContext samplePolicy0 sampleRecoverInput
    (samplePending.transaction sampleContext)
    sampleSelection = true
  effective : effectiveRoots sampleWorld samplePolicy0 (some sampleSelection) = ["/srv/app"]

theorem sampleChecks : SampleChecks where
  paths := by decide +kernel
  requestId := by decide +kernel
  revision := by decide +kernel
  ready := by decide +kernel
  operator := by decide +kernel
  policy := by decide +kernel
  recoverable := by decide +kernel
  effective := by decide +kernel

theorem run_sampleCut (checks : SampleChecks) :
    run sampleContext (start none) sampleCut = sampleStopped := by
  have hcheck : step sampleContext (start none) (.check sampleWorld (.body sampleRequest)) =
      { start none with applying := some ⟨samplePending, .checked⟩ } := by
    unfold step State.check
    dsimp only
    rw [checks.ready, if_neg (by decide)]
  have hcut : sampleCut = .check sampleWorld (.body sampleRequest) ::
      (List.replicate 5 (.advance stepDone) ++ [.crash ⟨0, 0, 0, 0, 0, 0⟩]) := rfl
  unfold sampleStopped run
  rw [hcut, List.foldl_cons, hcheck]

/-- The selection of the cut is read, now and after the recovery. -/
theorem selection_sampleStopped (checks : SampleChecks) :
    selection sampleContext sampleWorld sampleStopped.data = .ok (some sampleSelection) := by
  have hselection : sampleStopped.data.selection.now = some sampleSelection := rfl
  rw [← run_sampleCut checks] at hselection ⊢
  exact selection_accepted none sampleCut hselection rfl rfl

theorem checkRecover_sample (checks : SampleChecks) :
    checkRecover sampleContext sampleWorld sampleStopped sampleRecoverInput =
      .ok (samplePending.transaction sampleContext) := by
  have hfits : fits (samplePending.transaction sampleContext).text = true :=
    fits_transaction sampleContext.agentId_short
      (Nat.zero_le _) checks.requestId checks.revision (by decide)
      (List.all_eq_true.mp checks.paths)
  have hmarker : readTransaction sampleWorld sampleStopped.data.transaction.now =
      .ok (some (samplePending.transaction sampleContext)) := by
    have hnow : sampleStopped.data.transaction.now =
        some (.whole (samplePending.transaction sampleContext)) := rfl
    rw [hnow]
    simp only [readTransaction, bind_eq_ok, Except.refuseIf_eq_ok, Except.pure_eq_ok]
    exact ⟨(), rfl, (), by simp [hfits], trivial⟩
  have hpolicy : hostPolicy sampleContext sampleWorld false sampleStopped.host =
      .ok samplePolicy0 := checks.policy
  simp only [checkRecover, bind_eq_ok, Except.refuseIf_eq_ok]
  refine ⟨(), checks.operator, samplePolicy0, hpolicy, (), bne_self_eq_false _,
    _, hmarker, _, rfl, _,
    selection_sampleStopped checks, sampleSelection, ?_, (), rfl, rfl⟩
  unfold requireRecoverable
  dsimp only
  rw [checks.recoverable, if_pos rfl]

/-- The state after a recovery whose marker is gone for good. -/
theorem run_finishedRecovery {s : State} {input : RecoverInput} {marker : Transaction}
    (hmarker : checkRecover ctx w s input = .ok marker) (own : Bool) (fence : Written) :
    run ctx s [.recover w own input ⟨true, true, true, fence⟩] =
      { s with
        data := { s.data.sync with transaction := s.data.sync.transaction.set none }.sync
        latched := s.latched && !own } := by
  unfold run
  rw [List.foldl_cons, List.foldl_nil]
  unfold step State.recoverSelection
  dsimp only
  rw [hmarker]
  rfl

theorem run_sampleRecovery (checks : SampleChecks) :
    run sampleContext sampleStopped [sampleRecovery] = sampleRecovered :=
  run_finishedRecovery (checkRecover_sample checks) false .durable

theorem report_effectiveRoots {s : State} {policy : HostPolicy} {selected : Option Selection}
    (hpolicy : hostPolicy ctx w false s.host = .ok policy)
    (hselection : selection ctx w s.data = .ok selected)
    (hdurable : checkDurability w s.latched s.data = .ok ()) :
    (s.report ctx w).effectiveRoots = effectiveRoots w policy selected := by
  unfold State.report report
  rw [hpolicy]
  dsimp only
  rw [hselection]
  dsimp only
  rw [hdurable]

theorem effective_sampleRecovered (checks : SampleChecks) :
    (sampleRecovered.restart.report sampleContext sampleWorld).effectiveRoots = ["/srv/app"] := by
  have hpolicy : hostPolicy sampleContext sampleWorld false sampleRecovered.restart.host =
      .ok samplePolicy0 :=
    checks.policy
  have hselection : selection sampleContext sampleWorld sampleRecovered.restart.data =
      .ok (some sampleSelection) := by
    have hnow : sampleRecovered.data.selection.now = some sampleSelection := rfl
    rw [← run_sampleRecovery checks, ← run_sampleCut checks, ← run_append] at hnow
    have haccepted :=
      selection_accepted none (sampleCut ++ [sampleRecovery]) hnow (w := sampleWorld) rfl rfl
    rw [run_append, run_sampleCut checks, run_sampleRecovery checks] at haccepted
    exact haccepted
  have hdurable :
      checkDurability sampleWorld sampleRecovered.restart.latched sampleRecovered.restart.data =
        .ok () := rfl
  rw [report_effectiveRoots hpolicy hselection hdurable]
  exact checks.effective

theorem apply_crash_safe_of_cut :
    let s := run sampleContext (start none) sampleCut
    let t := (run sampleContext s [sampleRecovery]).restart
    s.data.transaction.now ≠ none ∧
      (t.report sampleContext sampleWorld).effectiveRoots = ["/srv/app"] ∧
      ((t.report sampleContext sampleWorld).Fenced ∨
        ∃ p, Applied sampleContext (start none) sampleCut p ∧
          s.data.transaction.now = some (.whole (p.transaction sampleContext)) ∧
          s.data.selection.now = some (p.selection sampleContext) ∧
          t.Grants sampleContext sampleWorld (some (p.selection sampleContext))) :=
  have hmarked : (run sampleContext (start none) sampleCut).data.transaction.now ≠ none := by
    rw [run_sampleCut sampleChecks]
    exact Option.some_ne_none _
  have heffective :
      ((run sampleContext (run sampleContext (start none) sampleCut)
        [sampleRecovery]).restart.report
      sampleContext sampleWorld).effectiveRoots = ["/srv/app"] := by
    rw [run_sampleCut sampleChecks, run_sampleRecovery sampleChecks]
    exact effective_sampleRecovered sampleChecks
  ⟨hmarked, heffective,
    ((apply_crash_safe sampleContext none sampleCut).2.2 [sampleRecovery] sampleWorld
      (by decide)).2 hmarked⟩

end Pluton.SourceAccess
