-- SUMMARY: The invariant of the Agent's files between the steps of apply, over every crash.
import Pluton.SourceAccess.Spec

/-!
# The files of the Agent

Three files are written in a fixed order and read back together. `Files` says which
combinations of them a crash can leave, `PhaseOk` adds what the running `apply` knows.
Both are kept by every event, whatever the file system and the host do in between.
-/
namespace Pluton.SourceAccess

open Disk (Entry Written)
open Disk.Entry (settled all_settled all_set)

variable {ctx : Context} {w : World} {phase : Phase}

/-! ## The invariant -/

/-- A selection that is not newer than what `p` writes: the one of `p`, or one it replaces. -/
def UpTo (ctx : Context) (p : Pending) (file : Option Selection) : Prop :=
  ∀ sel, file = some sel → sel = p.selection ctx ∨ sel.effectiveVersion ≤ p.input.expectedVersion

/-- What the files of the state directory satisfy, where `P` holds of the requests that
passed the checks of `apply`. -/
structure Files (ctx : Context) (P : Pending → Prop) (d : DataDir) : Prop where
  anchor : d.anchor.All fun file => ∀ id, file = some id → id = ctx.agentId
  selection : d.selection.All fun file => ∀ sel, file = some sel → ∃ p, P p ∧ sel = p.selection ctx
  /-- Where a selection can be, the anchor is on disk. -/
  anchored : d.selection.All (· = none) ∨ d.anchor = settled (some ctx.agentId)
  /-- Where the marker can be missing, nothing else is in doubt. -/
  quiet : d.transaction.All (·.isSome) ∨ d.selection.before = [] ∧ d.anchor.before = []
  marker : d.transaction.All fun file => ∀ t, file = some (.whole t) →
    ∃ p, P p ∧ t = p.transaction ctx ∧ d.selection.All (UpTo ctx p)

/-- The selection and the anchor are as the checks of `apply` found them. -/
structure Ready (d : DataDir) (p : Pending) : Prop where
  selection : d.selection.before = []
  anchor : d.anchor.before = []
  version : ∀ sel, d.selection.now = some sel → sel.effectiveVersion ≤ p.input.expectedVersion

/-- The selection is written; only the marker may be in doubt. -/
structure Finishing (ctx : Context) (d : DataDir) (p : Pending) : Prop where
  transaction : d.transaction.All fun file => file = none ∨ file = some (.whole (p.transaction ctx))
  selection : d.selection = settled (some (p.selection ctx))
  anchor : d.anchor = settled (some ctx.agentId)

def PhaseOk (ctx : Context) (d : DataDir) (p : Pending) : Phase → Prop
  | .checked => d.transaction.now = none ∧ Ready d p
  | .created => d.transaction.now = some .torn ∧ Ready d p
  | .written => d.transaction.now = some (.whole (p.transaction ctx)) ∧ Ready d p
  | .fenced => d.transaction = settled (some (.whole (p.transaction ctx))) ∧ Ready d p
  | .anchored => d.transaction = settled (some (.whole (p.transaction ctx))) ∧ Ready d p ∧
      d.anchor = settled (some ctx.agentId)
  | .stored => Finishing ctx d p
  | .unlinked fence => fence = p.transaction ctx ∧ Finishing ctx d p

structure Good (ctx : Context) (P : Pending → Prop) (s : State) : Prop where
  files : Files ctx P s.data
  applying : ∀ a, s.applying = some a → P a.pending ∧ PhaseOk ctx s.data a.pending a.phase

variable {P Q : Pending → Prop} {d : DataDir} {p : Pending} {s : State}

theorem Files.mono (h : Files ctx P d) (hPQ : ∀ p, P p → Q p) : Files ctx Q d where
  anchor := h.anchor
  selection :=
    h.selection.imp fun _ hfile sel hsel => (hfile sel hsel).imp fun p hp => ⟨hPQ p hp.1, hp.2⟩
  anchored := h.anchored
  quiet := h.quiet
  marker := h.marker.imp fun _ hfile t ht => (hfile t ht).imp fun p hp => ⟨hPQ p hp.1, hp.2⟩

theorem Good.mono (h : Good ctx P s) (hPQ : ∀ p, P p → Q p) : Good ctx Q s :=
  ⟨h.files.mono hPQ, fun a ha => ⟨hPQ _ (h.applying a ha).1, (h.applying a ha).2⟩⟩

theorem good_start (policy : Option PolicyFile) : Good ctx P (start policy) := by
  refine ⟨⟨?_, ?_, .inl ?_, .inr ⟨rfl, rfl⟩, ?_⟩, fun a ha => by cases ha⟩
  · exact all_settled.mpr fun id hid => by cases hid
  · exact all_settled.mpr fun sel hsel => by cases hsel
  · exact all_settled.mpr rfl
  · exact all_settled.mpr fun t ht => by cases ht

/-! ## Syncs and crashes -/

theorem Files.sync (h : Files ctx P d) : Files ctx P d.sync where
  anchor := h.anchor.sync
  selection := h.selection.sync
  anchored := h.anchored.imp (·.sync) fun hanchor => by rw [DataDir.sync, hanchor]; rfl
  quiet := .inr ⟨rfl, rfl⟩
  marker :=
    (h.marker.imp fun _ hfile t ht => (hfile t ht).imp fun _ hp => ⟨hp.1, hp.2.1, hp.2.2.sync⟩).sync

theorem Files.crash (h : Files ctx P d) (picks : Picks) :
    Files ctx P ⟨d.anchor.crash picks.anchor, d.selection.crash picks.selection,
      d.transaction.crash picks.transaction, d.modeSetup.crash picks.modeSetup⟩ where
  anchor := h.anchor.crash _
  selection := h.selection.crash _
  anchored := h.anchored.imp (·.crash _) fun hanchor => by rw [hanchor, Disk.Entry.crash_settled]
  quiet := .inr ⟨rfl, rfl⟩
  marker :=
    (h.marker.imp fun _ hfile t ht => (hfile t ht).imp fun _ hp =>
      ⟨hp.1, hp.2.1, hp.2.2.crash _⟩).crash _

theorem Files.modeSetup (h : Files ctx P d) (receipt : Entry Receipt) :
    Files ctx P { d with modeSetup := receipt } :=
  ⟨h.anchor, h.selection, h.anchored, h.quiet, h.marker⟩

theorem Ready.sync (h : Ready d p) : Ready d.sync p := ⟨rfl, rfl, h.version⟩

theorem Finishing.sync (h : Finishing ctx d p) : Finishing ctx d.sync p where
  transaction := h.transaction.sync
  selection := by rw [DataDir.sync, h.selection]; rfl
  anchor := by rw [DataDir.sync, h.anchor]; rfl

theorem PhaseOk.sync (h : PhaseOk ctx d p phase) : PhaseOk ctx d.sync p phase := by
  cases phase with
  | checked => exact ⟨h.1, h.2.sync⟩
  | created => exact ⟨h.1, h.2.sync⟩
  | written => exact ⟨h.1, h.2.sync⟩
  | fenced => exact ⟨by rw [DataDir.sync, h.1]; rfl, h.2.sync⟩
  | anchored => exact ⟨by rw [DataDir.sync, h.1]; rfl, h.2.1.sync, by rw [DataDir.sync, h.2.2]; rfl⟩
  | stored => exact Finishing.sync h
  | unlinked fence => exact ⟨h.1, h.2.sync⟩

theorem Ready.modeSetup (h : Ready d p) (receipt : Entry Receipt) :
    Ready { d with modeSetup := receipt } p :=
  ⟨h.selection, h.anchor, h.version⟩

theorem Finishing.modeSetup (h : Finishing ctx d p) (receipt : Entry Receipt) :
    Finishing ctx { d with modeSetup := receipt } p :=
  ⟨h.transaction, h.selection, h.anchor⟩

theorem PhaseOk.modeSetup (h : PhaseOk ctx d p phase) (receipt : Entry Receipt) :
    PhaseOk ctx { d with modeSetup := receipt } p phase := by
  cases phase with
  | checked | created | written | fenced => exact ⟨h.1, h.2.modeSetup receipt⟩
  | anchored => exact ⟨h.1, h.2.1.modeSetup receipt, h.2.2⟩
  | stored => exact Finishing.modeSetup h receipt
  | unlinked fence => exact ⟨h.1, h.2.modeSetup receipt⟩

/-! ## Writes -/

theorem Ready.upTo (h : Ready d p) : d.selection.All (UpTo ctx p) := by
  rw [Disk.Entry.eq_settled h.selection, all_settled]
  exact fun sel hsel => .inr (h.version sel hsel)

theorem Finishing.upTo (h : Finishing ctx d p) : d.selection.All (UpTo ctx p) := by
  rw [h.selection, all_settled]
  exact fun sel hsel => .inl (Option.some.inj hsel).symm

/-- A new marker where the other two files are not in doubt. -/
theorem Files.transaction (h : Files ctx P d) (hsel : d.selection.before = [])
    (hanchor : d.anchor.before = []) {entry : Entry Marker}
    (hentry : entry.All fun file => ∀ t, file = some (.whole t) →
      ∃ p, P p ∧ t = p.transaction ctx ∧ d.selection.All (UpTo ctx p)) :
    Files ctx P { d with transaction := entry } :=
  ⟨h.anchor, h.selection, h.anchored, .inr ⟨hsel, hanchor⟩, hentry⟩

theorem Files.create (h : Files ctx P d) (hready : Ready d p) :
    Files ctx P { d with transaction := d.transaction.set (some .torn) } :=
  h.transaction hready.selection hready.anchor (all_set.mpr ⟨(fun t ht => by cases ht), h.marker⟩)

theorem Files.fill (h : Files ctx P d) (hp : P p) (hready : Ready d p) :
    Files ctx P { d with transaction := d.transaction.refill (.whole (p.transaction ctx)) } :=
  h.transaction hready.selection hready.anchor
    (h.marker.refill fun t ht => ⟨p, hp, by cases ht; rfl, hready.upTo⟩)

theorem Files.unlink (h : Files ctx P d) (hsel : d.selection.before = [])
    (hanchor : d.anchor.before = []) :
    Files ctx P { d with transaction := d.transaction.set none } :=
  h.transaction hsel hanchor (all_set.mpr ⟨(fun t ht => by cases ht), h.marker⟩)

theorem Files.refence (h : Files ctx P d) (hsel : d.selection.before = [])
    (hanchor : d.anchor.before = []) {fence : Transaction}
    (hfence : ∃ p, P p ∧ fence = p.transaction ctx ∧ d.selection.All (UpTo ctx p))
    (written : Written) : Files ctx P (d.refence fence written) := by
  have hwhole : ∀ t, some (.whole fence) = some (Marker.whole t) →
      ∃ p, P p ∧ t = p.transaction ctx ∧ d.selection.All (UpTo ctx p) := fun t ht => by
    cases ht
    exact hfence
  cases written with
  | durable => exact (h.transaction hsel hanchor (all_settled.mpr hwhole)).sync
  | lost => exact h
  | unsynced => exact h.transaction hsel hanchor (all_set.mpr ⟨hwhole, h.marker⟩)

theorem Files.anchor_replace (h : Files ctx P d) (hmarked : d.transaction.All (·.isSome))
    (hmissing : d.anchor.now = none) (written : Written) :
    Files ctx P { d with anchor := d.anchor.replace ctx.agentId written } where
  anchor := h.anchor.replace (fun id hid => by cases hid; rfl) written
  selection := h.selection
  anchored := by
    refine .inl (h.anchored.resolve_right fun hanchor => ?_)
    rw [hanchor] at hmissing
    cases hmissing
  quiet := .inl hmarked
  marker := h.marker

theorem Files.selection_replace (h : Files ctx P d) (hp : P p) (hready : Ready d p)
    (hmarked : d.transaction = settled (some (.whole (p.transaction ctx))))
    (hanchor : d.anchor = settled (some ctx.agentId)) (written : Written) :
    Files ctx P { d with selection := d.selection.replace (p.selection ctx) written } where
  anchor := h.anchor
  selection := h.selection.replace (fun sel hsel => ⟨p, hp, by cases hsel; rfl⟩) written
  anchored := .inr hanchor
  quiet := .inl (by rw [hmarked]; exact all_settled.mpr rfl)
  marker := by
    rw [hmarked, all_settled]
    rintro t ⟨⟩
    exact ⟨p, hp, rfl, hready.upTo.replace (fun sel hsel => .inl (by cases hsel; rfl)) written⟩

/-! ## Steps of `apply` -/

theorem Good.stop (h : Good ctx P s) (code : Code) : Good ctx P (s.stop code) :=
  ⟨h.files, fun a ha => by cases ha⟩

theorem good_stop {data : DataDir} (h : Files ctx P data) (code : Code) :
    Good ctx P ({ s with data := data }.stop code) :=
  ⟨h, fun a ha => by cases ha⟩

theorem good_proceed (hfiles : Files ctx P d) (hp : P p) (hphase : PhaseOk ctx d p phase) :
    Good ctx P (s.proceed p phase d) :=
  ⟨hfiles, fun a ha => by cases ha; exact ⟨hp, hphase⟩⟩

theorem good_write {io : Io} (hfiles : Files ctx P d) (hp : P p)
    (hphase : io.written = .durable → PhaseOk ctx d p phase) :
    Good ctx P (s.write p phase io d) := by
  unfold State.write
  split
  · rename_i hdurable
    exact good_proceed hfiles.sync hp (hphase hdurable).sync
  · exact good_stop hfiles _

/-- One file operation of `apply` keeps the invariant, however it ends. -/
theorem good_advance (h : Good ctx P s) (io : Io) : Good ctx P (s.advance ctx io) := by
  unfold State.advance
  split
  · exact h
  -- the marker is created, written and synced
  · rename_i p happ
    obtain ⟨hp, -, hready⟩ := h.applying _ happ
    split
    · exact h.stop _
    · exact good_proceed (h.files.create hready) hp ⟨rfl, hready.selection,
        hready.anchor, hready.version⟩
  · rename_i p happ
    obtain ⟨hp, -, hready⟩ := h.applying _ happ
    split
    · exact h.stop _
    · exact good_proceed (h.files.fill hp hready) hp ⟨rfl, hready.selection,
        hready.anchor, hready.version⟩
  · rename_i p happ
    obtain ⟨hp, hmarker, hready⟩ := h.applying _ happ
    split
    · exact h.stop _
    · exact good_proceed h.files.sync hp
        ⟨congrArg settled hmarker, hready.sync⟩
  -- the anchor is written, unless it is there
  · rename_i p happ
    obtain ⟨hp, hmarker, hready⟩ := h.applying _ happ
    split
    · exact h.stop _
    · split
      · rename_i hanchor
        refine good_proceed h.files hp ⟨hmarker, hready, ?_⟩
        obtain ⟨id, hid⟩ := Option.isSome_iff_exists.mp hanchor
        rw [Disk.Entry.eq_settled hready.anchor, hid, h.files.anchor.1 id hid]
      · rename_i hanchor
        refine good_write (h.files.anchor_replace ?_ (by simpa using hanchor) _) hp fun hdurable =>
          ?_
        · rw [hmarker]
          exact all_settled.mpr rfl
        · rw [hdurable]
          exact ⟨hmarker, ⟨hready.selection, rfl, hready.version⟩, rfl⟩
  -- the selection is written
  · rename_i p happ
    obtain ⟨hp, hmarker, hready, hanchor⟩ := h.applying _ happ
    split
    · exact h.stop _
    · refine good_write (h.files.selection_replace hp hready hmarker hanchor _) hp fun hdurable =>
        ?_
      rw [hdurable]
      refine ⟨?_, rfl, hanchor⟩
      rw [hmarker]
      exact all_settled.mpr (.inr rfl)
  -- the marker is unlinked, while nothing else is in doubt
  · rename_i p happ
    obtain ⟨hp, hfin⟩ := h.applying _ happ
    have hsel : s.data.selection.before = [] := by rw [hfin.selection]; rfl
    have hanchor : s.data.anchor.before = [] := by rw [hfin.anchor]; rfl
    split
    · exact h.stop _
    · split
      · rename_i fence hfence
        split
        · exact h.stop _
        · refine good_proceed (h.files.unlink hsel hanchor) hp ⟨?_, ?_, hfin.selection, hfin.anchor⟩
          · have hnow := hfin.transaction.1
            rw [hfence] at hnow
            simpa using hnow
          · exact all_set.mpr ⟨.inl rfl, hfin.transaction⟩
      · exact h.stop _
  -- the unlink is synced, or the marker is put back
  · rename_i p fence happ
    obtain ⟨hp, hfence, hfin⟩ := h.applying _ happ
    split
    · exact ⟨h.files.sync, fun a ha => by cases ha⟩
    · refine good_stop (h.files.refence ?_ ?_ ⟨p, hp, hfence, hfin.upTo⟩ _) _
      · rw [hfin.selection]
        rfl
      · rw [hfin.anchor]
        rfl

/-- A call of `apply` changes no file before its marker. -/
theorem good_check (h : Good ctx P s) (payload : Payload)
    (hP : ∀ p, checkApply ctx w s payload = .ready p → P p) :
    Good ctx P (s.check ctx w payload) := by
  unfold State.check
  split
  · exact h
  · split
    · exact h.stop _
    · exact h
    · rename_i p hready
      obtain ⟨policy, hbound⟩ := checkApply_ready hready
      refine ⟨h.files, fun a ha => ?_⟩
      cases ha
      -- the marker is missing, so the other files are not in doubt
      have hquiet := h.files.quiet.resolve_left fun hall => by
        have hnow := hall.1
        rw [hbound.unmarked] at hnow
        cases hnow
      refine ⟨hP p hready, hbound.unmarked, hquiet.1, hquiet.2, fun sel hsel => ?_⟩
      have hversion := hbound.version
      rw [hsel] at hversion
      exact hversion.ge

/-! ## The host -/

theorem Files.consume (h : Files ctx P d) (receipt : Receipt) (written : Written) :
    Files ctx P (d.consume receipt written) := by
  unfold DataDir.consume
  split
  · exact (h.modeSetup _).sync
  · exact h.modeSetup _

theorem PhaseOk.consume (h : PhaseOk ctx d p phase) (receipt : Receipt) (written : Written) :
    PhaseOk ctx (d.consume receipt written) p phase := by
  unfold DataDir.consume
  split
  · exact (h.modeSetup _).sync
  · exact h.modeSetup _

/-- What an operation of the host does to the Agent: it writes a receipt, or nothing. -/
structure HostFrame (s s' : State) : Prop where
  applying : s'.applying = s.applying
  latched : s'.latched = s.latched
  data : s'.data = s.data ∨ ∃ receipt written, s'.data = s.data.consume receipt written

theorem HostFrame.refl (s : State) : HostFrame s s := ⟨rfl, rfl, .inl rfl⟩

/-- After which the directory of the policy may change. -/
theorem HostFrame.host {s' : State} (h : HostFrame s s') (host : HostDir) :
    HostFrame s { s' with host := host } :=
  ⟨h.applying, h.latched, h.data⟩

theorem HostFrame.release {s' : State} (h : HostFrame s s') (io : HostIo)
    (result : Except Code HostPolicy) :
    HostFrame s (s'.release io result).2 := by
  unfold State.release
  split
  · exact h.host _
  · cases io.fence <;> exact h.host _

theorem HostFrame.writePolicy {s' : State} (h : HostFrame s s') (io : HostIo)
    (host : HostApproval) :
    HostFrame s (s'.writePolicy io host) := by
  unfold State.writePolicy
  cases io.policy <;> exact h.host _

theorem hostFrame_consume (receipt : Receipt) (written : Written) :
    HostFrame s (s.consume receipt written) :=
  ⟨rfl, rfl, .inr ⟨receipt, written, rfl⟩⟩

theorem hostFrame_commit (host : HostDir) (io : HostIo) (change : Change) :
    HostFrame s ({ s with host := host }.commit ctx w io change).2 := by
  have hreceipt : HostFrame s ({ s with host := host }.writeReceipt io change.receipt).2 := by
    cases change.receipt with
    | none => exact (HostFrame.refl s).host host
    | some receipt => exact ⟨rfl, rfl, .inr ⟨receipt, io.receipt, rfl⟩⟩
  unfold State.commit
  split
  · rename_i heq
    rw [heq] at hreceipt
    exact hreceipt
  · rename_i heq
    rw [heq] at hreceipt
    dsimp only
    split
    · exact hreceipt.writePolicy io change.host
    · exact hreceipt.writePolicy io change.host

theorem hostFrame_withHostWriter (io : HostIo) (plan : Except Code Change) :
    HostFrame s (s.withHostWriter ctx w io plan).2 := by
  have hrefl := HostFrame.refl s
  unfold State.withHostWriter
  split
  · exact hrefl
  · split
    · exact hrefl
    · dsimp only
      split
      · exact hrefl.host _
      · split
        · exact (hrefl.host _).release io _
        · rename_i change
          have hcommit : HostFrame s (State.commit ctx w
              { s with
                host := { s.host with lock := s.host.lock.set (some ()) }.sync } io change).2 :=
            hostFrame_commit _ io change
          split
          · rename_i heq
            rw [heq] at hcommit
            exact hcommit
          · rename_i heq
            rw [heq] at hcommit
            exact hcommit.release io _

theorem hostFrame_approval (input : ApprovalInput) (io : HostIo) :
    HostFrame s (s.changeHostApproval ctx w input io).2 := by
  unfold State.changeHostApproval
  split
  · exact HostFrame.refl s
  · exact hostFrame_withHostWriter io _

theorem hostFrame_mode (input : ModeInput) (io : HostIo) :
    HostFrame s (s.changeAuthorizationMode ctx w input io).2 := by
  unfold State.changeAuthorizationMode
  split
  · exact HostFrame.refl s
  · split
    · exact HostFrame.refl s
    · exact hostFrame_withHostWriter io _

theorem HostFrame.good {s' : State} (hframe : HostFrame s s') (h : Good ctx P s) :
    Good ctx P s' := by
  rcases hframe.data with hdata | ⟨receipt, written, hdata⟩
  · exact ⟨hdata ▸ h.files, fun a ha => hdata ▸ h.applying a (hframe.applying ▸ ha)⟩
  · refine ⟨hdata ▸ h.files.consume receipt written, fun a ha => ?_⟩
    obtain ⟨hp, hphase⟩ := h.applying a (hframe.applying ▸ ha)
    exact ⟨hp, hdata ▸ hphase.consume receipt written⟩

/-! ## Recovery -/

/-- A recovery meets a running `apply` only when that has written its selection. -/
theorem finishing_of_recover {input : RecoverInput} {marker : Transaction}
    (hcheck : checkRecover ctx w s input = .ok marker) (hphase : PhaseOk ctx s.data p phase) :
    (phase = .stored ∨ ∃ fence, phase = .unlinked fence) ∧ Finishing ctx s.data p := by
  obtain ⟨hmarker, sel, hsel, hversion⟩ := checkRecover_ok hcheck
  -- before that, the selection is at most the version the marker was created for
  have hold : s.data.transaction.now = some (.whole (p.transaction ctx)) →
      Ready s.data p → False := by
    intro hnow hready
    rw [hmarker] at hnow
    cases hnow
    have hle := hready.version sel hsel
    rw [hversion] at hle
    exact absurd hle (Nat.not_succ_le_self _)
  cases phase with
  | checked =>
      rw [hphase.1] at hmarker
      cases hmarker
  | created =>
      rw [hphase.1] at hmarker
      cases hmarker
  | written => exact (hold hphase.1 hphase.2).elim
  | fenced => exact (hold (by rw [hphase.1]; rfl) hphase.2).elim
  | anchored => exact (hold (by rw [hphase.1]; rfl) hphase.2.1).elim
  | stored => exact ⟨.inl rfl, hphase⟩
  | unlinked fence => exact ⟨.inr ⟨fence, rfl⟩, hphase.2⟩

theorem phaseOk_of_finishing (hphase : PhaseOk ctx d p phase) {d' : DataDir}
    (hlate : phase = .stored ∨ ∃ fence, phase = .unlinked fence) (hfin : Finishing ctx d' p) :
    PhaseOk ctx d' p phase := by
  rcases hlate with rfl | ⟨fence, rfl⟩
  · exact hfin
  · exact ⟨hphase.1, hfin⟩

theorem Finishing.transaction_set (h : Finishing ctx d p) {entry : Entry Marker}
    (hentry : entry.All fun file => file = none ∨ file = some (.whole (p.transaction ctx))) :
    Finishing ctx { d with transaction := entry } p :=
  ⟨hentry, h.selection, h.anchor⟩

theorem Finishing.refence (h : Finishing ctx d p) (written : Written) :
    Finishing ctx (d.refence (p.transaction ctx) written) p := by
  cases written with
  | durable => exact (h.transaction_set (all_settled.mpr (.inr rfl))).sync
  | lost => exact h
  | unsynced => exact h.transaction_set (all_set.mpr ⟨.inr rfl, h.transaction⟩)

theorem good_recover (h : Good ctx P s) (own : Bool) (input : RecoverInput) (io : RecoverIo) :
    Good ctx P (s.recoverSelection ctx w own input io) := by
  unfold State.recoverSelection
  split
  · exact h
  · rename_i marker hcheck
    have hmarker := (checkRecover_ok hcheck).1
    have hfence := h.files.sync.marker.1 marker hmarker
    have hunlink : Files ctx P { s.data.sync with
        transaction := s.data.sync.transaction.set none } :=
      h.files.sync.unlink rfl rfl
    -- an `apply` that is still running has nothing left to do but to remove the same marker
    have hlate : ∀ a, s.applying = some a → P a.pending ∧ marker = a.pending.transaction ctx ∧
        (a.phase = .stored ∨ ∃ fence, a.phase = .unlinked fence) ∧
        Finishing ctx { s.data.sync with
          transaction := s.data.sync.transaction.set none } a.pending := by
      intro a ha
      obtain ⟨hp, hphase⟩ := h.applying a ha
      obtain ⟨hlate, hfin⟩ := finishing_of_recover hcheck hphase
      refine ⟨hp, ?_, hlate,
        hfin.sync.transaction_set (all_set.mpr ⟨.inl rfl, hfin.sync.transaction⟩)⟩
      have hnow := hfin.transaction.1
      rw [hmarker] at hnow
      simpa using hnow
    split
    · exact h
    · split
      · exact ⟨h.files.sync, fun a ha => ⟨(h.applying a ha).1, (h.applying a ha).2.sync⟩⟩
      · dsimp only
        split
        · refine ⟨hunlink.sync, fun a ha => ?_⟩
          obtain ⟨hp, -, hphase, hfin⟩ := hlate a ha
          exact ⟨hp, phaseOk_of_finishing (h.applying a ha).2 hphase hfin.sync⟩
        · refine ⟨hunlink.refence rfl rfl hfence _, fun a ha => ?_⟩
          obtain ⟨hp, rfl, hphase, hfin⟩ := hlate a ha
          exact ⟨hp, phaseOk_of_finishing (h.applying a ha).2 hphase (hfin.refence _)⟩

/-! ## Runs -/

theorem good_step (h : Good ctx P s) (e : Event)
    (hP : ∀ w payload p, e = .check w payload → checkApply ctx w s payload = .ready p → P p) :
    Good ctx P (step ctx s e) := by
  cases e with
  | check w payload => exact good_check h payload fun p hp => hP w payload p rfl hp
  | advance io => exact good_advance h io
  | report w => exact h
  | approval w input io => exact (hostFrame_approval input io).good h
  | mode w input io => exact (hostFrame_mode input io).good h
  | receipt receipt written => exact (hostFrame_consume receipt written).good h
  | recover w own input io => exact good_recover h own input io
  | restart => exact ⟨h.files, fun a ha => by cases ha⟩
  | crash picks => exact ⟨h.files.crash picks, fun a ha => by cases ha⟩

theorem good_run_of (h : Good ctx (fun _ => True) s) (events : List Event) :
    Good ctx (fun _ => True) (run ctx s events) := by
  induction events generalizing s with
  | nil => exact h
  | cons e events ih => exact ih (good_step h e fun _ _ _ _ _ => trivial)

/-- A request that passed the checks of an `apply` somewhere in the run. -/
def Applied (ctx : Context) (s : State) (events : List Event) (p : Pending) : Prop :=
  ∃ before w payload after, events = before ++ .check w payload :: after ∧
    checkApply ctx w (run ctx s before) payload = .ready p

theorem Applied.append {events more : List Event} (h : Applied ctx s events p) :
    Applied ctx s (events ++ more) p := by
  obtain ⟨before, w, payload, after, rfl, hready⟩ := h
  exact ⟨before, w, payload, after ++ more, by simp, hready⟩

theorem run_append (events more : List Event) :
    run ctx s (events ++ more) = run ctx (run ctx s events) more :=
  List.foldl_append

theorem good_run_append {events : List Event}
    (h : Good ctx (Applied ctx s events) (run ctx s events)) (more : List Event) :
    Good ctx (Applied ctx s (events ++ more)) (run ctx s (events ++ more)) := by
  induction more generalizing events with
  | nil => simpa using h
  | cons e more ih =>
      have hstep : Good ctx (Applied ctx s (events ++ [e])) (run ctx s (events ++ [e])) := by
        rw [run_append]
        refine good_step (h.mono fun p hp => hp.append) e fun w payload p he hready => ?_
        exact ⟨events, w, payload, [], by rw [he], hready⟩
      simpa using ih hstep

/-- In every run the files are those of requests that the run has checked. -/
theorem good_run (policy : Option PolicyFile) (events : List Event) :
    Good ctx (Applied ctx (start policy) events) (run ctx (start policy) events) := by
  have hstart : Good ctx (Applied ctx (start policy) []) (run ctx (start policy) []) :=
    good_start policy
  simpa using good_run_append hstart events

end Pluton.SourceAccess
