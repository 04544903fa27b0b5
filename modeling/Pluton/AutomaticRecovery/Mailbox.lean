-- SUMMARY: A recovery mailbox keeps its intents, and its request file is never behind them.
import Mathlib.Logic.Relation
import Mathlib.Order.Defs.Unbundled
import Pluton.AutomaticRecovery.Lifecycle
import Pluton.Run
import Pluton.Table

/-!
# The mailbox under every interleaving

`Change` lists what a step can do to the mailbox; what holds over runs is derived from it.
The writes are serial, so a write that goes on has only waiting ones behind it: the file
is the last intent's from the moment that intent was written.
-/
namespace Pluton.AutomaticRecovery.Mailbox

open Await EStateM Relation

variable {e : Setting} {s s' : Mailbox} {i k : Nat}

/-! ## What the record says -/

def actionIs (s : Mailbox) (act : LifecycleAction) : Prop :=
  ∃ row, s.row = some row ∧ row.action = act

/-- `resume_sequence`, 0 before the record is there. -/
def sequence (s : Mailbox) : Nat := s.row.elim 0 (·.resumeSequence)

def observed (s : Mailbox) : Nat := s.row.elim 0 (·.observedSequence)

def removed (s : Mailbox) : Prop := ∃ row, s.row = some row ∧ row.state = .removed

/-- No publish is in flight. -/
def quiet (s : Mailbox) : Prop := ∀ link ∈ s.publishing.links, link.phase.outcome.isSome

/-! ## The request file -/

/-- What a write knows of the file at a point of its way. -/
def Knows (contents : String) (request : Option String) :
    LinkPhase Stage (Except String Unit) → Prop
  | .running (.inspect text) => request = some text
  | .running .syncExisting => request = some contents
  | .running (.closeExisting (.ok true)) => request = some contents
  | .running .syncRequests => request = some contents
  | .running (.removeTemporary (.ok _)) => request = some contents
  | .settled (.ok _) => request = some contents
  | _ => True

/-! ## Changes -/

/-- What a step can do. -/
inductive Change (e : Setting) (s : Mailbox) : Mailbox → Prop where
  | insert (row : RecordRow) (hnone : s.row = none) (hsequence : row.resumeSequence = 0) :
      Change e s { s with row := some row }
  | commit (p : Publication) (current row : RecordRow) (hrow : s.row = some current)
      (hcommit : current.commit p = .ok (some row)) :
      Change e s { s with row := some row, publishing := s.publishing.enqueue ⟨row, p⟩ }
  | write (i : Nat) (link : Link Intent Stage (Except String Unit))
      (phase : LinkPhase Stage (Except String Unit))
      (request : Option String) (hlink : s.publishing.links[i]? = some link)
      (hopen : link.phase.outcome = none)
      (hserial : s.publishing.Serial → (s.publishing.setPhase i phase).Serial)
      (hknows : link.call.isCurrent s.row = true →
        Knows (e.stringify link.call.request) s.request link.phase →
        Knows (e.stringify link.call.request) request phase) :
      Change e s { s.setPhase i phase with request := request }
  | release (i : Nat) : Change e s { s with publishing := s.publishing.release i }
  | observe (value : Receipt) (current : RecordRow) (k : Nat) (phase : ReceiptPhase)
      (hrow : s.row = some current)
      (hnew : RecordRow.outdates current value = false)
      (hphase : ∀ held, phase = .stating held ∨ phase = .unlinking held → value.state = .removed) :
      Change e s { s.setReceipt k phase with row := some (RecordRow.observe current value) }
  | receipt : Change e s s.receipt
  | receiptStat (k : Nat) (phase : ReceiptPhase)
      (hphase : ∀ held, phase = .stating held ∨ phase = .unlinking held →
        ∃ old, s.receipts[k]? = some (.stating old)) :
      Change e s (s.setReceipt k phase)
  | unlink (k : Nat) (value : Receipt) (request : Option String)
      (hunlink : s.receipts[k]? = some (.unlinking value)) :
      Change e s { s.setReceipt k (.returned (some value)) with request := request }

/-- The changes of a step, one after the other. -/
abbrev Changes (e : Setting) : Mailbox → Mailbox → Prop := ReflTransGen (Change e)

theorem ensure_changes (binding : LifecycleBinding) (ownerToken : String) (around : Surroundings) :
    Within (Changes e) (ensure binding ownerToken around) := by
  unfold ensure
  refine Within.bind Within.refuseIf fun _ s => ?_
  rw [wp_bind, wp_get]
  cases hrow : s.row with
  | some previous => exact Within.refuseIf s
  | none =>
      refine wp_bind.mpr (wp_refuseIf.mpr ⟨fun _ => .refl, fun _ => ?_⟩)
      exact wp_bind.mpr (wp_refuseIf.mpr ⟨fun _ => .refl, fun _ => .single (.insert _ hrow rfl)⟩)

theorem publish_changes (p : Publication) (around : Surroundings) :
    Within (Changes e) (publish p around) := by
  unfold publish
  refine Within.bind Within.refuseIf fun _ s => ?_
  rw [wp_bind, wp_get]
  cases hrow : s.row with
  | none => exact Within.pure s
  | some current =>
      refine wp_bind.mpr (wp_ofExcept.mpr ⟨fun intent hcommit => ?_, fun _ _ => .refl⟩)
      cases intent with
      | none => exact Within.pure s
      | some row => exact .single (.commit p current row hrow hcommit)

theorem persistent_changes (id : String) (row : DatabaseRestore) (p : Publication)
    (around : Surroundings) :
    Within (Changes e) (persistent id row p around) :=
  Within.bind (ensure_changes _ _ _) fun _ => publish_changes p around

theorem testing_changes (id snapshotId : String) (entries : List RecoveryDatabaseResult)
    (createdAt : Nat) (around : Surroundings) :
    Within (Changes e) (testing id snapshotId entries createdAt around) :=
  Within.bind Within.refuseIf fun _ => Within.bind (ensure_changes _ _ _) fun _ =>
    publish_changes _ around

theorem action_changes (act : LifecycleAction) (cleanupReady : Bool) (around : Surroundings) :
    Within (Changes e) (action act cleanupReady around) := by
  unfold action
  refine Within.bind Within.refuseIf fun _ s => ?_
  rw [wp_bind, wp_get]
  exact Within.bind Within.refuseIf (fun _ => publish_changes _ around) s

theorem Change.goOn {link : Link Intent Stage (Except String Unit)} {stage : Stage}
    (hlink : s.publishing.links[i]? = some link) (hrunning : link.phase = .running stage)
    (phase : LinkPhase Stage (Except String Unit)) (request : Option String)
    (hknows : link.call.isCurrent s.row = true →
      Knows (e.stringify link.call.request) s.request (.running stage) →
      Knows (e.stringify link.call.request) request phase) :
    Changes e s { s.setPhase i phase with request := request } := by
  refine .single (.write i link phase request hlink ?_ (fun h => h.advance hlink hrunning) ?_)
  · rw [hrunning]
    rfl
  · rw [hrunning]
    exact hknows

theorem turn_changes (i : Nat) : Changes e s (s.turn i) := by
  unfold turn
  split
  · next link hready =>
    obtain ⟨hlink, hwaiting, -⟩ := Chain.ready_eq_some.mp hready
    have hopen : link.phase.outcome = none := by
      rw [hwaiting]
      rfl
    split
    · exact .single (.write i link _ s.request hlink hopen (fun h => h.begin hready) fun _ _ =>
        True.intro)
    · next hstale =>
        exact .single (.write i link _ s.request hlink hopen (fun h => h.begin hready) fun h =>
          absurd h hstale)
  · exact .refl

/-- Each answer takes the write to a point at which it knows no more of the
file than the answer says. -/
theorem proceed_changes {link : Link Intent Stage (Except String Unit)} {stage : Stage}
    (hlink : s.publishing.links[i]? = some link) (hrunning : link.phase = .running stage)
    (a : Answer) :
    Changes e s (s.proceed e.stringify i link.call stage a) := by
  -- most steps go on knowing nothing, the others by what they were told
  have plain : ∀ phase, (∀ request, Knows (e.stringify link.call.request) request phase) →
      Changes e s (s.setPhase i phase) :=
    fun phase hphase => Change.goOn hlink hrunning phase s.request fun _ _ => hphase s.request
  have told : ∀ phase, (Knows (e.stringify link.call.request) s.request (.running stage) →
      Knows (e.stringify link.call.request) s.request phase) → Changes e s (s.setPhase i phase) :=
    fun phase hphase => Change.goOn hlink hrunning phase s.request fun _ => hphase
  unfold proceed
  split
  · split
    · exact plain _ fun _ => True.intro
    · exact plain _ fun _ => True.intro
  · exact plain _ fun _ => True.intro
  · split
    · split
      · exact plain _ fun _ => True.intro
      · exact plain _ fun _ => True.intro
    · exact plain _ fun _ => True.intro
  · split
    · exact plain _ fun _ => True.intro
    · exact plain _ fun _ => True.intro
  · split
    · exact plain _ fun _ => True.intro
    · next text hrequest => exact told _ fun _ => hrequest
  · exact plain _ fun _ => True.intro
  · split
    · exact plain _ fun _ => True.intro
    · split
      · next heq => exact told _ fun hknown => heq ▸ hknown
      · exact plain _ fun _ => True.intro
  · exact plain _ fun _ => True.intro
  · exact told _ fun hknown => hknown
  · exact plain _ fun _ => True.intro
  · exact plain _ fun _ => True.intro
  · next written _ =>
    cases written with
    | true => exact told _ fun hknown => hknown
    | false => exact plain _ fun _ => True.intro
  · exact plain _ fun _ => True.intro
  · split
    · exact plain _ fun _ => True.intro
    · next hstale =>
        exact Change.goOn hlink hrunning _ s.request fun hcurrent => absurd hcurrent hstale
  · exact plain _ fun _ => True.intro
  · exact Change.goOn hlink hrunning _ _ fun _ _ => rfl
  · exact plain _ fun _ => True.intro
  · exact told _ fun hknown => hknown
  · exact plain _ fun _ => True.intro
  · next result _ =>
    cases result with
    | error _ => exact plain _ fun _ => True.intro
    | ok _ => exact told _ fun hknown => hknown
  · exact .refl

theorem answer_changes (i : Nat) (a : Answer) : Changes e s (s.answer e.stringify i a) := by
  unfold answer
  split
  · next hlink => exact proceed_changes hlink rfl a
  · exact .refl

theorem receiptRead_changes (k : Nat) (value : Option Receipt) (now : Nat) :
    Changes e s (s.receiptRead e.hash e.id k value now) := by
  unfold receiptRead
  split
  · split
    · exact .single (.receiptStat k _ nofun)
    · split
      · exact .single (.receiptStat k _ nofun)
      · next current hrow =>
        split
        · exact .single (.receiptStat k _ nofun)
        · next hnew =>
          refine .single (.observe _ current k _ hrow (Bool.not_eq_true _ ▸ hnew) fun held hphase =>
            ?_)
          split at hphase
          · next hremoved => exact hremoved
          · rcases hphase with hphase | hphase <;> cases hphase
  · exact .single (.receiptStat k _ nofun)
  · exact .refl

theorem receiptStat_changes (k : Nat) (stat : Except String FileStat) :
    Changes e s (s.receiptStat k stat) := by
  unfold receiptStat
  split
  · next value hstating =>
    split
    · exact .single (.receiptStat k _ fun _ _ => ⟨value, hstating⟩)
    · exact .single (.receiptStat k _ nofun)
  · exact .refl

theorem receiptUnlink_changes (k : Nat) (ok : Bool) : Changes e s (s.receiptUnlink k ok) := by
  unfold receiptUnlink
  split
  · next value hunlink => exact .single (.unlink k value _ hunlink)
  · exact .refl

theorem step_changes (s : Mailbox) (l : Label) : Changes e s (step e s l) := by
  cases l with
  | persistent row p around => exact wp_iff_after.mp (persistent_changes e.id row p around s)
  | testing snapshotId entries createdAt around =>
      exact wp_iff_after.mp (testing_changes e.id snapshotId entries createdAt around s)
  | action act cleanupReady around =>
      exact wp_iff_after.mp (action_changes act cleanupReady around s)
  | turn i => exact turn_changes i
  | answer i a => exact answer_changes i a
  | release i => exact .single (.release i)
  | receipt => exact .single .receipt
  | receiptRead k value now => exact receiptRead_changes k value now
  | receiptStat k stat => exact receiptStat_changes k stat
  | receiptUnlink k ok => exact receiptUnlink_changes k ok

theorem run_induction {P : Mailbox → Prop} (hchange : ∀ s s', Change e s s' → P s → P s')
    (labels : List Label) (h : P s) :
    P (labels.foldl (step e) s) := by
  have hsteps : ∀ s l, P s → P (step e s l) := by
    intro s l hs
    have hchanges : Changes e s (step e s l) := step_changes s l
    generalize step e s l = t at hchanges
    induction hchanges with
    | refl => exact hs
    | tail _ hstep ih => exact hchange _ _ hstep ih
  induction labels generalizing s with
  | nil => exact h
  | cons l labels ih => exact ih (hsteps s l h)

/-! ## What the record keeps -/

theorem commit_spec {current row : RecordRow} {p : Publication}
    (h : current.commit p = .ok (some row)) :
    current.state ≠ .removed ∧ (current.action = .delete → p.action = .delete) ∧
      row = { current with
        action := p.action
        resumeSequence := current.resumeSequence + if p.allocates then 1 else 0 } := by
  unfold RecordRow.commit at h
  dsimp only at h
  split at h
  · cases h
  next hremoved =>
  split at h
  · cases h
  next hdelete =>
  have hstays : current.action = .delete → p.action = .delete := fun hcurrent =>
    by_contra fun hne => hdelete ⟨hcurrent, hne⟩
  split at h
  · cases h
  split at h
  · next hresume =>
    split at h
    · cases h
    by_cases hzero : (if p.replay then current.resumeSequence else current.resumeSequence + 1) = 0
    · rw [if_pos hzero] at h
      cases h
    · rw [if_neg hzero] at h
      cases h
      refine ⟨hremoved, hstays, ?_⟩
      cases hreplay : p.replay <;> simp [Publication.allocates, hresume, hreplay]
  · next hother =>
    cases h
    refine ⟨hremoved, hstays, ?_⟩
    simp [Publication.allocates, hother]

/-- Delete and removal are final, and the observed sequence does not go back. -/
structure Later (s s' : Mailbox) : Prop where
  delete : s.actionIs .delete → s'.actionIs .delete
  observed : s.observed ≤ s'.observed
  removed : s.removed → s'.removed

theorem Later.of_row (h : s'.row = s.row) : Later s s' := by
  refine ⟨fun hdelete => ?_, ?_, fun hremoved => ?_⟩
  · rw [actionIs, h]
    exact hdelete
  · rw [Mailbox.observed, Mailbox.observed, h]
  · rw [Mailbox.removed, h]
    exact hremoved

theorem Later.trans {s'' : Mailbox} (h : Later s s') (h' : Later s' s'') : Later s s'' :=
  ⟨fun hs => h'.delete (h.delete hs), Nat.le_trans h.observed h'.observed,
    fun hs => h'.removed (h.removed hs)⟩

theorem Later.of_rows {current row : RecordRow} (hrow : s.row = some current)
    (hrow' : s'.row = some row) (hdelete : current.action = .delete → row.action = .delete)
    (hobserved : current.observedSequence ≤ row.observedSequence)
    (hremoved : current.state = .removed → row.state = .removed) : Later s s' := by
  refine ⟨fun ⟨held, hheld, haction⟩ => ?_, ?_, fun ⟨held, hheld, hstate⟩ => ?_⟩
  · cases hrow.symm.trans hheld
    exact ⟨row, hrow', hdelete haction⟩
  · rw [Mailbox.observed, Mailbox.observed, hrow, hrow']
    exact hobserved
  · cases hrow.symm.trans hheld
    exact ⟨row, hrow', hremoved hstate⟩

/-- A receipt that is recorded is not older, and does not undo a removal. -/
theorem observe_spec {current : RecordRow} {value : Receipt}
    (h : RecordRow.outdates current value = false) :
    RecordRow.observe current value = { current with
      state := value.state
      code := value.code
      observedSequence := value.sequence } ∧
      current.observedSequence ≤ value.sequence ∧ (current.state = .removed →
        value.state = .removed) := by
  simp only [RecordRow.outdates, Bool.or_eq_false_iff, decide_eq_false_iff_not, Nat.not_lt,
    Bool.and_eq_false_iff] at h
  obtain ⟨⟨hsequence, hremoved⟩, -⟩ := h
  refine ⟨if_pos hsequence, hsequence, fun hstate => ?_⟩
  rcases hremoved with hremoved | hremoved
  · rw [hstate] at hremoved
    cases hremoved
  · simpa using hremoved

theorem Change.later (h : Change e s s') : Later s s' := by
  cases h with
  | insert row hnone hsequence =>
      refine ⟨fun ⟨_, hheld, _⟩ => ?_, ?_, fun ⟨_, hheld, _⟩ => ?_⟩
      · cases hnone.symm.trans hheld
      · rw [Mailbox.observed, hnone]
        exact Nat.zero_le _
      · cases hnone.symm.trans hheld
  | commit p current row hrow hcommit =>
      obtain ⟨hstate, hdelete, rfl⟩ := commit_spec hcommit
      exact Later.of_rows hrow rfl hdelete (Nat.le_refl _) fun hremoved => absurd hremoved hstate
  | write => exact Later.of_row rfl
  | release => exact Later.of_row rfl
  | observe value current k phase hrow hnew hphase =>
      obtain ⟨hobserve, hsequence, hremoved⟩ := observe_spec hnew
      refine Later.of_rows hrow rfl ?_ ?_ ?_
      · rw [hobserve]
        exact id
      · rw [hobserve]
        exact hsequence
      · rw [hobserve]
        exact hremoved
  | receipt => exact Later.of_row rfl
  | receiptStat => exact Later.of_row rfl
  | unlink => exact Later.of_row rfl

/-- The removal is recorded before a receipt may unlink the file; the last intent is the
record's, and its write knows what it has found or left in the file. -/
structure Inv (e : Setting) (s : Mailbox) : Prop where
  serial : s.publishing.Serial
  unlinks : ∀ (k : Nat) (value : Receipt),
    s.receipts[k]? = some (.stating value) ∨ s.receipts[k]? = some (.unlinking value) → s.removed
  current : ∀ link, s.publishing.links.getLast? = some link →
    s.removed ∨ link.call.isCurrent s.row = true
  knows : ∀ link, s.publishing.links.getLast? = some link →
    s.removed ∨ Knows (e.stringify link.call.request) s.request link.phase

theorem Inv.start (row : Option RecordRow) (request : Option String) :
    Inv e (start row request) where
  serial := .empty
  unlinks _ _ h := by simp [Mailbox.start] at h
  current _ h := absurd h (by simp [Mailbox.start, Chain.empty])
  knows _ h := absurd h (by simp [Mailbox.start, Chain.empty])

/-- Behind a write that has not settled all the writes wait. -/
theorem last_cases (h : s.publishing.Serial) {link last : Link Intent Stage (Except String Unit)}
    (hlink : s.publishing.links[i]? = some link) (hopen : link.phase.outcome = none)
    (hlast : s.publishing.links.getLast? = some last) :
    i + 1 = s.publishing.links.length ∧ last = link ∨
    i + 1 < s.publishing.links.length ∧ last.phase = .waiting := by
  rw [List.getLast?_eq_getElem?] at hlast
  have hlt := (List.getElem?_eq_some_iff.mp hlink).1
  rcases Nat.lt_or_ge (i + 1) s.publishing.links.length with hmore | hend
  · refine .inr ⟨hmore, by_contra fun hbegun => ?_⟩
    have hsettled := h.begun i (s.publishing.links.length - 1) last (by omega) hlast hbegun
    rw [Chain.outcomeAt, hlink, Option.bind_some, hopen] at hsettled
    cases hsettled
  · have hi : s.publishing.links.length - 1 = i := by omega
    rw [hi, hlink] at hlast
    cases hlast
    exact .inl ⟨by omega, rfl⟩

theorem getLast?_setPhase (phase : LinkPhase Stage (Except String Unit)) :
    (s.publishing.setPhase i phase).links.getLast? = s.publishing.links.getLast?.map fun link =>
      if i + 1 = s.publishing.links.length then { link with phase } else link := by
  rw [List.getLast?_eq_getElem?, Chain.getElem?_setPhase, List.getLast?_eq_getElem?]
  have hlength : (s.publishing.setPhase i phase).links.length = s.publishing.links.length := by
    simp [Chain.setPhase]
  rw [hlength]
  cases hlast : s.publishing.links[s.publishing.links.length - 1]? with
  | none => rfl
  | some last =>
      have hlt := (List.getElem?_eq_some_iff.mp hlast).1
      have hiff : i = s.publishing.links.length - 1 ↔ i + 1 = s.publishing.links.length := by omega
      simp only [Option.map_some, hiff]

/-- What a change of the row or of the receipts keeps. -/
theorem Inv.of_later (h : Inv e s) (hlater : Later s s') (hlinks : s'.publishing = s.publishing)
    (hrequest : s'.request = s.request)
    (hcurrent : ∀ link : Link Intent Stage (Except String Unit), link.call.isCurrent s.row = true →
      s'.removed ∨ link.call.isCurrent s'.row = true)
    (hreceipts : ∀ (k : Nat) (value : Receipt), s'.receipts[k]? = some (.stating value) ∨
      s'.receipts[k]? = some (.unlinking value) →
      s'.removed) : Inv e s' where
  serial := by
    rw [hlinks]
    exact h.serial
  unlinks := hreceipts
  current link hlink := by
    rw [hlinks] at hlink
    rcases h.current link hlink with hremoved | hold
    · exact .inl (hlater.removed hremoved)
    · exact hcurrent link hold
  knows link hlink := by
    rw [hlinks] at hlink
    rw [hrequest]
    exact (h.knows link hlink).imp_left hlater.removed

theorem Inv.unlinks_set (h : Inv e s) {phase : ReceiptPhase}
    (hphase : ∀ held, phase = .stating held ∨ phase = .unlinking held → s.removed) (j : Nat)
    (value : Receipt) (hj : (s.receipts.set k phase)[j]? = some (.stating value) ∨
      (s.receipts.set k phase)[j]? = some (.unlinking value)) :
    s.removed := by
  rw [List.getElem?_set] at hj
  split at hj
  · split at hj
    · exact hphase value (hj.imp Option.some.inj Option.some.inj)
    · rcases hj with hj | hj <;> cases hj
  · exact h.unlinks j value hj

theorem Change.inv (hchange : Change e s s') (h : Inv e s) : Inv e s' := by
  have hlater := hchange.later
  cases hchange with
  | insert row hnone hsequence =>
      refine h.of_later hlater rfl rfl (fun link hcurrent => ?_) fun k value hk =>
        hlater.removed (h.unlinks k value hk)
      rw [hnone] at hcurrent
      cases hcurrent
  | commit p current row hrow hcommit =>
      obtain ⟨hstate, -, hnew⟩ := commit_spec hcommit
      -- the link that was made is the last one, and it has read nothing
      have hlast : ∀ link, (s.publishing.enqueue ⟨row, p⟩).links.getLast? = some link →
          link = ⟨⟨row, p⟩, s.publishing.tail, .waiting⟩ := by
        intro link hlink
        simpa [Chain.enqueue, eq_comm] using hlink
      refine ⟨h.serial.enqueue _, fun k value hk => hlater.removed (h.unlinks k value hk),
        fun link hlink => .inr ?_,
        fun link hlink => .inr ?_⟩
      · rw [hlast link hlink]
        subst hnew
        simp [Intent.isCurrent, hstate]
      · rw [hlast link hlink]
        exact True.intro
  | write i link phase request hlink hopen hserial hknows =>
      -- the last link is the one that goes on, or as it was
      have hlast : ∀ last', (s.publishing.setPhase i phase).links.getLast? = some last' → ∃ last,
          s.publishing.links.getLast? = some last ∧
            last' = if i + 1 = s.publishing.links.length then { last with phase } else last := by
        intro last' hlast'
        rw [getLast?_setPhase] at hlast'
        obtain ⟨last, hlast, heq⟩ := Option.map_eq_some_iff.mp hlast'
        exact ⟨last, hlast, heq.symm⟩
      refine ⟨hserial h.serial, fun k value hk => h.unlinks k value hk, fun last' hlast' => ?_,
        fun last' hlast' => ?_⟩
      · obtain ⟨last, hmem, rfl⟩ := hlast last' hlast'
        have hsame : (if i + 1 = s.publishing.links.length then { last with phase }
            else last).call = last.call := by
          split <;> rfl
        rw [hsame]
        exact h.current last hmem
      · obtain ⟨last, hmem, rfl⟩ := hlast last' hlast'
        rcases last_cases h.serial hlink hopen hmem with ⟨hi, rfl⟩ | ⟨hi, hwaiting⟩
        · -- The last write goes on: it knows what it knew, and what the answer says.
          rw [if_pos hi]
          rcases h.current last hmem with hremoved | hcurrent
          · exact .inl hremoved
          · exact (h.knows last hmem).imp_right (hknows hcurrent)
        · rw [if_neg (Nat.ne_of_lt hi), hwaiting]
          exact .inr True.intro
  | release i =>
      refine ⟨h.serial.release i, fun k value hk => h.unlinks k value hk, fun link hlink => ?_,
        fun link hlink => ?_⟩
      · rw [Chain.release_links] at hlink
        exact h.current link hlink
      · rw [Chain.release_links] at hlink
        exact h.knows link hlink
  | observe value current k phase hrow hnew hphase =>
      obtain ⟨hobserve, -, -⟩ := observe_spec hnew
      have hremoved : value.state = .removed →
          { s.setReceipt k phase with row := some (RecordRow.observe current value) }.removed :=
        fun hstate => ⟨_, rfl, by rw [hobserve]; exact hstate⟩
      refine h.of_later hlater rfl rfl (fun link hcurrent => ?_) fun j held hj => ?_
      · by_cases hstate : value.state = .removed
        · exact .inl (hremoved hstate)
        · rw [hrow] at hcurrent
          simp only [Intent.isCurrent, Option.any_some, Bool.and_eq_true] at hcurrent
          refine .inr ?_
          rw [hobserve]
          simpa [Intent.isCurrent, hstate] using And.intro hcurrent.1.1 hcurrent.2
      · rcases Decidable.em (value.state = .removed) with hstate | hstate
        · exact hremoved hstate
        · have hquiet : ∀ held, phase = .stating held ∨ phase = .unlinking held → s.removed :=
            fun held' hheld' => absurd (hphase held' hheld') hstate
          exact hlater.removed (h.unlinks_set hquiet j held hj)
  | receipt =>
      refine h.of_later hlater rfl rfl (fun link hcurrent => .inr hcurrent) fun k value hk => ?_
      refine hlater.removed (h.unlinks k value ?_)
      have hold : ∀ phase : ReceiptPhase, phase = .stating value ∨ phase = .unlinking value →
          s.receipt.receipts[k]? = some phase → s.receipts[k]? = some phase := by
        intro phase hphase hfound
        rw [Mailbox.receipt, List.getElem?_append] at hfound
        split at hfound
        · exact hfound
        · -- A call that has just begun has read no receipt yet.
          have hnew := List.mem_singleton.mp (List.mem_of_getElem? hfound)
          rw [hnew] at hphase
          cases hrow : s.row with
          | none =>
              rw [hrow] at hphase
              rcases hphase with hphase | hphase <;> cases hphase
          | some row =>
              rw [hrow] at hphase
              rcases hphase with hphase | hphase <;> cases hphase
      exact hk.imp (hold _ (.inl rfl)) (hold _ (.inr rfl))
  | receiptStat k phase hphase =>
      refine h.of_later hlater rfl rfl (fun link hcurrent => .inr hcurrent) fun j value hj => ?_
      refine hlater.removed (h.unlinks_set (fun held hheld => ?_) j value hj)
      obtain ⟨old, hold⟩ := hphase held hheld
      exact h.unlinks k old (.inl hold)
  | unlink k value request hunlink =>
      have hremoved : s.removed := h.unlinks k value (.inr hunlink)
      exact
        { serial := h.serial
          unlinks := fun _ _ _ => hlater.removed hremoved
          current := fun _ _ => .inl (hlater.removed hremoved)
          knows := fun _ _ => .inl (hlater.removed hremoved) }

theorem inv_run (row : Option RecordRow) (request : Option String) (labels : List Label) :
    Inv e (run e row request labels) :=
  run_induction (fun _ _ hchange h => hchange.inv h) labels (Inv.start row request)

/-! ## The mailbox -/

end Pluton.AutomaticRecovery.Mailbox
