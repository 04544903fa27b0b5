-- SUMMARY: When a finished local backup stays finished, over all interleavings.
import Pluton.LocalBackup.EventService
import Pluton.LocalBackup.Outcome
import Pluton.Run

/-!
# A finished local backup stays finished

`onBackupComplete` and `onBackupFailure` leave a finished row alone; `onBackupInit`,
`onBackupStart` and `onBackupError` do not ask. Where no script aborts after the outcome of
a job, all outcomes that are written agree, and what is left are the writes of those three.
-/
namespace Pluton.LocalBackup

/-! ## The events of a job -/

/-- All outcomes agree, and no attempt begins its run after one. -/
structure Orderly (success : Bool) (events : List Event) : Prop where
  complete : ∀ success', .complete success' ∈ events → success' = success
  failed : ∀ message, .failed message ∈ events → success = false
  last : ∀ pre event post, events = pre ++ event :: post → event.isOutcome = true → .start ∉ post

variable {event : Event}

theorem Orderly.tail {success : Bool} {events : List Event}
    (h : Orderly success (event :: events)) :
    Orderly success events where
  complete success' hmem := h.complete success' (List.mem_cons_of_mem event hmem)
  failed message hmem := h.failed message (List.mem_cons_of_mem event hmem)
  last pre event' post heq := h.last (event :: pre) event' post (by rw [heq, List.cons_append])

theorem isOutcome_of_plain (h : event.plain = true) : event.isOutcome = false := by
  cases event with
  | complete | failed => cases h
  | attempt | init | created | start | error => rfl

/-- Events that say nothing of the outcome may come first. -/
theorem Orderly.append {success : Bool} {pre rest : List Event} (h : Orderly success rest)
    (hplain : ∀ event ∈ pre, event.plain = true) : Orderly success (pre ++ rest) := by
  induction pre with
  | nil => exact h
  | cons event pre ih =>
      obtain ⟨hevent, hpre⟩ := List.forall_mem_cons.mp hplain
      have hrest := ih hpre
      refine ⟨fun success' hmem => ?_, fun message hmem => ?_,
        fun front event' post heq houtcome => ?_⟩
      · rcases List.mem_cons.mp hmem with rfl | hlater
        · cases hevent
        · exact hrest.complete success' hlater
      · rcases List.mem_cons.mp hmem with rfl | hlater
        · cases hevent
        · exact hrest.failed message hlater
      · cases front with
        | nil =>
            injection heq with hhead
            rw [← hhead, isOutcome_of_plain hevent] at houtcome
            cases houtcome
        | cons first front =>
            injection heq with _ htail
            exact hrest.last front event' post htail houtcome

theorem orderly_success : Orderly true [.complete true] where
  complete success' hmem := by simpa using hmem
  failed message hmem := by simp at hmem
  last front event post heq _ hstart := by
    have hmem : Event.start ∈ [Event.complete true] :=
      heq ▸ List.mem_append_right front (List.mem_cons_of_mem event hstart)
    simp at hmem

theorem orderly_failure {message failure : String} :
    Orderly false [.complete false, .error message, .failed failure] where
  complete success' hmem := by simpa using hmem
  failed _ _ := rfl
  last front event post heq _ hstart := by
    have hmem : Event.start ∈ [Event.complete false, .error message, .failed failure] :=
      heq ▸ List.mem_append_right front (List.mem_cons_of_mem event hstart)
    simp at hmem

section Jobs

variable {o : Options} {maxAttempts : Int} {env : Nat → Attempt} {more attempts : Nat}

theorem orderly_of_last (h : ¬ Retried o maxAttempts attempts (env attempts))
    (hhooks : HooksHold o maxAttempts attempts (env attempts)) :
    ∃ success, Orderly success (eventsFrom o maxAttempts env more attempts) := by
  cases hphases : phases o (env attempts) [] with
  | ok u events =>
      have hhook : runScripts o (env attempts) .afterBackupOfSuccess = .ok () := by
        simpa [HooksHold, hphases] using hhooks
      have hattempt : attempt o attempts maxAttempts (env attempts) =
          (.attempt attempts :: (events ++ [.complete true]), .completed) :=
            attempt_succeeds hphases hhook
      refine ⟨true, ?_⟩
      rw [eventsFrom_of_end (by rw [hattempt]; exact Jobs.Verdict.noConfusion),
        hattempt, ← List.cons_append]
      exact orderly_success.append (plain_attempt (phases_ok_quiet hphases))
  | error e events =>
      have hpermanent : permanentlyFailed attempts maxAttempts e = true := by
        simpa [Retried, hphases] using h
      rw [HooksHold, hphases] at hhooks
      obtain ⟨message, hattempt⟩ := attempt_gives_up hphases hpermanent hhooks
      refine ⟨false, ?_⟩
      rw [eventsFrom_of_end (by rw [hattempt]; exact Jobs.Verdict.noConfusion),
        hattempt, ← List.cons_append, List.append_assoc]
      exact orderly_failure.append (plain_attempt (phases_error_quiet hphases).1)

theorem orderly_from (hmore : maxAttempts ≤ attempts + more)
    (hhooks : ∀ k, attempts ≤ k → (∀ m, attempts ≤ m → m < k → Retried o maxAttempts m (env m)) →
      HooksHold o maxAttempts k (env k)) :
    ∃ success, Orderly success (eventsFrom o maxAttempts env more attempts) := by
  induction more generalizing attempts with
  | zero =>
      refine orderly_of_last ?_ (forall_reached.mp hhooks).1
      unfold Retried
      split
      · exact id
      · rw [permanentlyFailed_eq_false]
        omega
  | succ more ih =>
      obtain ⟨hfirst, hlater⟩ := forall_reached.mp hhooks
      by_cases hretried : Retried o maxAttempts attempts (env attempts)
      · cases hphases : phases o (env attempts) [] with
        | ok u events => simp [Retried, hphases] at hretried
        | error e events =>
            have hpermanent : permanentlyFailed attempts maxAttempts e = false := by
              simpa [Retried, hphases] using hretried
            have hattempt : attempt o attempts maxAttempts (env attempts) =
                (.attempt attempts :: (events ++ [.error e.message]), .again) :=
                  attempt_retries hphases hpermanent
            obtain ⟨success, hsuccess⟩ := ih (by push_cast; omega) (hlater hretried)
            refine ⟨success, ?_⟩
            rw [eventsFrom_of_again (by rw [hattempt]), hattempt]
            refine hsuccess.append ?_
            rw [← List.cons_append, List.forall_mem_append, List.forall_mem_singleton]
            exact ⟨plain_attempt (phases_error_quiet hphases).1, rfl⟩
      · exact orderly_of_last hretried hfirst

end Jobs

/-! ## What a handler does -/

/-- The row of a backup that is finished. -/
def finalRow (success : Bool) : BackupRow :=
  { inProgress := false, status := if success then .completed else .failed,
    success := some success }

variable {handler : Handler} {row : Option BackupRow}

/-- A handler stays with the outcome it writes until it is over. -/
theorem outcome_next {answer : Answer} {success : Bool}
    (h : (handler.next answer row).outcome = some success) : handler.outcome = some success := by
  fun_cases Handler.next answer row handler <;> simp_all [Handler.next, Handler.outcome]

/-- A handler that is to write an outcome goes on to do so, unless the row is finished. -/
theorem outcome_stays (answer : Answer) {row : BackupRow} (h : handler.outcome.isSome = true)
    (hkept : row.isCancelled = false) :
    (∃ success, handler.outcome = some success ∧
      handler.write (some row) = some (finalRow success)) ∨
      (handler.write (some row) = some row ∧
        (row.isFinal = true ∨ (handler.next answer (some row)).outcome.isSome = true)) := by
  cases handler with
  | completeUpdate success => exact .inl ⟨success, rfl, rfl⟩
  | failureUpdate => exact .inl ⟨false, rfl, rfl⟩
  | completeCancelled | failureCancelled =>
      exact .inr ⟨rfl, .inr (by simp [Handler.next, hkept, Handler.outcome])⟩
  | completeFinalized success =>
      cases hfinal : row.isFinal with
      | true => exact .inr ⟨rfl, .inl rfl⟩
      | false =>
          exact .inr ⟨rfl, .inr (by cases success <;> simp [Handler.next, hfinal, Handler.outcome])⟩
  | failureFinalized =>
      cases hfinal : row.isFinal with
      | true => exact .inr ⟨rfl, .inl rfl⟩
      | false => exact .inr ⟨rfl, .inr (by simp [Handler.next, hfinal, Handler.outcome])⟩
  | _ => cases h

/-- A handler that writes no outcome leaves the row as it is, or unfinished. -/
theorem write_unfinished {row' : BackupRow} (h : handler.outcome = none)
    (hwrite : handler.write row = some row') :
    row = some row' ∨ row'.isFinal = false ∧ row'.isCancelled = false ∧
      (handler = .initRetry ∨ handler = .errorUpdate ∨ handler = .initCreate ∧ row = none) := by
  cases handler with
  | initRetry =>
      obtain ⟨old, rfl, rfl⟩ := Option.map_eq_some_iff.mp hwrite
      exact .inr ⟨rfl, rfl, .inl rfl⟩
  | errorUpdate =>
      obtain ⟨old, rfl, rfl⟩ := Option.map_eq_some_iff.mp hwrite
      exact .inr ⟨by simp [BackupRow.isFinal], rfl, .inr (.inl rfl)⟩
  | initCreate =>
      cases row with
      | none =>
          cases hwrite
          exact .inr ⟨rfl, rfl, .inr (.inr ⟨rfl, rfl⟩)⟩
      | some old => exact .inl hwrite
  | completeUpdate | failureUpdate => cases h
  | _ => exact .inl hwrite

/-- The invariant of a run, for the outcome of its job. -/
structure Inv (success : Bool) (s : World) : Prop where
  orderly : Orderly success s.rest
  agree : ∀ handler ∈ s.handlers, ∀ success', handler.outcome = some success' → success' = success
  unstarted : .start ∈ s.rest → (∀ handler ∈ s.handlers, handler.outcome = none) ∧
    ∀ row, s.row = some row → row.isFinal = false
  final : ∀ row, s.row = some row → row.isFinal = true → row = finalRow success
  kept : ∀ row, s.row = some row → row.isCancelled = false
  pending : ∀ row, s.row = some row → row.isFinal = true ∨ s.outcomeToCome = true

variable {success : Bool} {s : World}

theorem Inv.start {events : List Event} (h : Orderly success events) :
    Inv success { rest := events } where
  orderly := h
  agree _ hmem := absurd hmem List.not_mem_nil
  unstarted _ := ⟨fun _ hmem => absurd hmem List.not_mem_nil, nofun⟩
  final := nofun
  kept := nofun
  pending := nofun

theorem event_write {row' : BackupRow} (h : event.write row = some row') :
    row = some row' ∨ event = .start ∧ (∃ old, row = some old) ∧ row'.isFinal = false ∧
    row'.isCancelled = false := by
  cases event with
  | start =>
      obtain ⟨old, rfl, rfl⟩ := Option.map_eq_some_iff.mp h
      exact .inr ⟨rfl, ⟨old, rfl⟩, by simp [BackupRow.isFinal], rfl⟩
  | _ => exact .inl h

theorem event_handler {success' : Bool} (h : event.handler = some handler)
    (houtcome : handler.outcome = some success') :
    event = .complete success' ∨ success' = false ∧ ∃ message, event = .failed message := by
  cases event <;> cases h <;> simp [Handler.outcome] at houtcome ⊢ <;> exact houtcome

/-- An event of an outcome starts a handler that writes it. -/
theorem isOutcome_eq (event : Event) :
    event.isOutcome = event.handler.toList.any (·.outcome.isSome) := by
  cases event <;> rfl

theorem Inv.emit (h : Inv success s) : Inv success s.emit := by
  unfold World.emit
  split
  · exact h
  · next event rest hrest =>
    split
    · have horderly := hrest ▸ h.orderly
      -- The event leaves the queue and its handler enters the pool: what is to come stays the
      -- same.
      have hcome : s.outcomeToCome =
          (rest.any Event.isOutcome ||
            (s.handlers ++ event.handler.toList).any (·.outcome.isSome)) := by
        rw [World.outcomeToCome, hrest, List.any_cons, List.any_append, isOutcome_eq,
          Bool.or_comm (List.any _ _), Bool.or_assoc, Bool.or_comm (List.any s.handlers _)]
      refine ⟨horderly.tail, ?_, ?_, ?_, ?_, ?_⟩
      · intro handler hmem success' houtcome
        rcases List.mem_append.mp hmem with hold | hnew
        · exact h.agree handler hold success' houtcome
        -- Only `complete` and `failed` have a handler with an outcome, and it is that of the run.
        · rcases event_handler (Option.mem_toList.mp hnew) houtcome with rfl | ⟨rfl, message, rfl⟩
          · exact horderly.complete success' List.mem_cons_self
          · exact (horderly.failed message List.mem_cons_self).symm
      · intro hstart
        obtain ⟨hhandlers, hrow⟩ := h.unstarted (hrest ▸ List.mem_cons_of_mem event hstart)
        -- No outcome stands before a start, so this event is none.
        have hplain : event.isOutcome = false := by
          by_contra houtcome
          exact horderly.last [] event rest rfl (Bool.not_eq_false _ ▸ houtcome) hstart
        refine ⟨fun handler hmem => ?_, fun row hwrite => ?_⟩
        · rcases List.mem_append.mp hmem with hold | hnew
          · exact hhandlers handler hold
          · rw [isOutcome_eq, List.any_eq_false] at hplain
            simpa using hplain handler hnew
        · rcases event_write hwrite with hsame | ⟨-, -, hfinal, -⟩
          · exact hrow row hsame
          · exact hfinal
      · intro row hwrite hrow
        rcases event_write hwrite with hsame | ⟨-, -, hfinal, -⟩
        · exact h.final row hsame hrow
        · rw [hfinal] at hrow
          cases hrow
      · intro row hwrite
        rcases event_write hwrite with hsame | ⟨-, -, -, hkept⟩
        · exact h.kept row hsame
        · exact hkept
      · intro row hwrite
        show row.isFinal = true ∨
          (rest.any Event.isOutcome ||
            (s.handlers ++ event.handler.toList).any (·.outcome.isSome)) = true
        rw [← hcome]
        rcases event_write hwrite with hsame | ⟨rfl, ⟨old, hold⟩, -, -⟩
        · exact h.pending row hsame
        · refine .inr ((h.pending old hold).resolve_left ?_)
          rw [(h.unstarted (hrest ▸ List.mem_cons_self)).2 old hold]
          exact Bool.false_ne_true
    · exact h

/-- What a handler still has to write stays, unless the handler is over. -/
theorem outcomeToCome_set {handlers : List Handler} {i : Nat} {handler next : Handler}
    {rest : List Event} (hhandler : handlers[i]? = some handler)
    (hnext : handler.outcome.isSome = true → next.outcome.isSome = true)
    (h : (rest.any Event.isOutcome || handlers.any (·.outcome.isSome)) = true) :
    (rest.any Event.isOutcome || (handlers.set i next).any (·.outcome.isSome)) = true := by
  rw [Bool.or_eq_true] at h ⊢
  refine h.imp id fun hany => ?_
  obtain ⟨other, hmem, hother⟩ := List.any_eq_true.mp hany
  obtain ⟨j, hj⟩ := List.mem_iff_getElem?.mp hmem
  have hlt : i < handlers.length := (List.getElem?_eq_some_iff.mp hhandler).1
  by_cases hij : i = j
  · subst hij
    cases hhandler.symm.trans hj
    exact List.any_eq_true.mpr ⟨next,
      List.mem_of_getElem? (List.getElem?_set_self hlt), hnext hother⟩
  · refine List.any_eq_true.mpr ⟨other, List.mem_of_getElem? (i := j) ?_, hother⟩
    rw [List.getElem?_set_ne hij]
    exact hj

@[simp] theorem isFinal_finalRow (success : Bool) : (finalRow success).isFinal = true :=
  by cases success <;> rfl

@[simp] theorem isCancelled_finalRow (success : Bool) : (finalRow success).isCancelled = false := by
  cases success <;> rfl

/-- The row after a handler went on: as before, the outcome of the job, or unfinished with an
outcome still to be written. -/
theorem Inv.write_cases (h : Inv success s) {i : Nat} {answer : Answer}
    (hok : s.guarded (.resume i answer) = true) (hhandler : s.handlers[i]? = some handler)
    {row : BackupRow} (hwrite : handler.write s.row = some row) :
    (s.row = some row ∧ (handler.outcome.isSome = true → row.isFinal = true ∨
        (handler.next answer s.row).outcome.isSome = true)) ∨
      (handler.outcome.isSome = true ∧ row = finalRow success) ∨
      (handler.outcome = none ∧ row.isFinal = false ∧ row.isCancelled = false ∧
        s.outcomeToCome = true ∧
        ∀ old, s.row = some old → old.isFinal = false) := by
  cases houtcome : handler.outcome with
  | none =>
      rcases write_unfinished houtcome hwrite with hsame | ⟨hfinal, hkept, hwhich⟩
      · exact .inl ⟨hsame, nofun⟩
      · -- the handlers that write over a row have been guarded against a final one
        have hopened : ∀ old, s.row = some old → old.isFinal = false →
            s.outcomeToCome = true ∧ ∀ other, s.row = some other → other.isFinal = false := by
          intro old hold hopen
          refine ⟨(h.pending old hold).resolve_left (by simp [hopen]), fun other hother => ?_⟩
          cases hold.symm.trans hother
          exact hopen
        refine .inr (.inr ⟨rfl, hfinal, hkept, ?_⟩)
        rcases hwhich with rfl | rfl | ⟨rfl, hnone⟩
        · obtain ⟨old, hold, -⟩ := Option.map_eq_some_iff.mp hwrite
          exact hopened old hold (by simpa [World.guarded, hhandler, hold] using hok)
        · obtain ⟨old, hold, -⟩ := Option.map_eq_some_iff.mp hwrite
          exact hopened old hold (by simpa [World.guarded, hhandler, hold] using hok)
        · refine ⟨by simpa [World.guarded, hhandler, hnone] using hok, ?_⟩
          rw [hnone]
          exact nofun
  | some success' =>
      cases hrow : s.row with
      | none =>
          rw [hrow] at hwrite
          cases handler <;> cases hwrite
          cases houtcome
      | some old =>
          rw [hrow] at hwrite
          rcases outcome_stays answer (by rw [houtcome]; rfl) (h.kept old hrow) with
            ⟨success'', hagree, hfinal⟩ | ⟨hsame, hstays⟩
          · cases h.agree handler (List.mem_of_getElem? hhandler) success'' hagree
            rw [hfinal] at hwrite
            cases hwrite
            exact .inr (.inl ⟨rfl, rfl⟩)
          · rw [hsame] at hwrite
            cases hwrite
            exact .inl ⟨rfl, fun _ => hstays⟩

theorem Inv.resume (h : Inv success s) {i : Nat} {answer : Answer}
    (hok : s.guarded (.resume i answer) = true) :
    Inv success (s.resume i answer) := by
  unfold World.resume
  split
  · next handler hhandler =>
    have hmem := List.mem_of_getElem? hhandler
    refine ⟨h.orderly, ?_, ?_, ?_, ?_, ?_⟩
    -- A handler that goes on keeps the outcome it had, or has none any more.
    · intro other hother success' houtcome
      rcases List.mem_or_eq_of_mem_set hother with hold | rfl
      · exact h.agree other hold success' houtcome
      · exact h.agree handler hmem success' (outcome_next houtcome)
    · intro hstart
      obtain ⟨hhandlers, hrow⟩ := h.unstarted hstart
      refine ⟨fun other hother => ?_, fun row hwrite => ?_⟩
      · rcases List.mem_or_eq_of_mem_set hother with hold | rfl
        · exact hhandlers other hold
        · refine Option.eq_none_iff_forall_ne_some.mpr fun success' houtcome => ?_
          have hnone := hhandlers handler hmem
          rw [outcome_next houtcome] at hnone
          cases hnone
      · rcases h.write_cases hok hhandler hwrite with ⟨hsame, -⟩ | ⟨houtcome, -⟩ | ⟨-, hfinal, -⟩
        · exact hrow row hsame
        · rw [hhandlers handler hmem] at houtcome
          cases houtcome
        · exact hfinal
    · intro row hwrite hfinal
      rcases h.write_cases hok hhandler hwrite with ⟨hsame, -⟩ | ⟨-, rfl⟩ | ⟨-, hopen, -⟩
      · exact h.final row hsame hfinal
      · rfl
      · rw [hopen] at hfinal
        cases hfinal
    · intro row hwrite
      rcases h.write_cases hok hhandler hwrite with ⟨hsame, -⟩ | ⟨-, rfl⟩ | ⟨-, -, hkept, -⟩
      · exact h.kept row hsame
      · exact isCancelled_finalRow success
      · exact hkept
    · intro row hwrite
      rcases h.write_cases hok hhandler hwrite with
        ⟨hsame, hstays⟩ | ⟨-, rfl⟩ | ⟨hnone, -, -, hcome, -⟩
      -- A row that is not final has an outcome to come, which this step leaves where it is.
      · rcases h.pending row hsame with hfinal | hcome
        · exact .inl hfinal
        · by_cases hfinal : row.isFinal = true
          · exact .inl hfinal
          · exact .inr (outcomeToCome_set hhandler (fun houtcome =>
              (hstays houtcome).resolve_left hfinal) hcome)
      · exact .inl (isFinal_finalRow success)
      · refine .inr (outcomeToCome_set hhandler (fun houtcome => ?_) hcome)
        rw [hnone] at houtcome
        cases houtcome
  · exact h

theorem Inv.step (h : Inv success s) {label : Label} (hok : s.guarded label = true) :
    Inv success (s.step label) := by
  cases label with
  | emit => exact h.emit
  | resume i answer => exact h.resume hok

theorem Inv.row_step (h : Inv success s) {label : Label} (hok : s.guarded label = true)
    {row : BackupRow} (hrow : s.row = some row) (hfinal : row.isFinal = true) :
    (s.step label).row = some row := by
  cases label with
  | emit =>
      show s.emit.row = some row
      unfold World.emit
      split
      · exact hrow
      · next event rest hrest =>
        split
        · show event.write s.row = some row
          by_cases hstart : event = .start
          · subst hstart
            have hopen := (h.unstarted (hrest ▸ List.mem_cons_self)).2 row hrow
            rw [hfinal] at hopen
            cases hopen
          · cases event <;> first | exact hrow | exact absurd rfl hstart
        · exact hrow
  | resume i answer =>
      show (s.resume i answer).row = some row
      unfold World.resume
      split
      · next handler hhandler =>
        show handler.write s.row = some row
        have hsome : ∃ row', handler.write s.row = some row' := by
          rw [hrow]
          cases handler <;> exact ⟨_, rfl⟩
        obtain ⟨row', hwrite⟩ := hsome
        rw [hwrite]
        rcases h.write_cases hok hhandler hwrite with ⟨hsame, -⟩ | ⟨-, rfl⟩ | ⟨-, -, -, -, hopen⟩
        · exact hsame.symm.trans hrow
        · rw [h.final row hrow hfinal]
        · have hnot := hopen row hrow
          rw [hfinal] at hnot
          cases hnot
      · exact hrow

/-! ## Runs -/

/-- The first state of a job: there is no row yet. -/
def World.start (o : Options) (maxAttempts : Int) (env : Nat → Attempt) : World :=
  { rest := jobEvents o maxAttempts env }

/-- Where no script aborts after an outcome, and the handlers that do not ask whether
the backup is finished write in time, a finished row never changes, and the row that is
left in the end is finished. -/
theorem finished_backup_stays_finished (o : Options) (maxAttempts : Int) (env : Nat → Attempt)
    (hhooks : ∀ k, (∀ m < k, Retried o maxAttempts m (env m)) → HooksHold o maxAttempts k (env k))
    (labels : List Label)
    (hok : Run.Along World.step (fun s label => s.guarded label = true)
      (World.start o maxAttempts env) labels) :
    (∀ first later, labels = first ++ later → ∀ row,
      (first.foldl World.step (World.start o maxAttempts env)).row = some row → row.isFinal = true →
        (labels.foldl World.step (World.start o maxAttempts env)).row = some row) ∧
    ((labels.foldl World.step (World.start o maxAttempts env)).isSettled = true →
      ∀ row, (labels.foldl World.step (World.start o maxAttempts env)).row = some row →
        row.isFinal = true) := by
  obtain ⟨success, horderly⟩ : ∃ success, Orderly success (jobEvents o maxAttempts env) := by
    refine orderly_from (by have := Int.self_le_toNat maxAttempts; omega) fun k _ hretried =>
      hhooks k fun m hm => ?_
    exact hretried m (Nat.zero_le m) hm
  have hstart : Inv success (World.start o maxAttempts env) := .start horderly
  constructor
  · rintro first later rfl row hrow hfinal
    obtain ⟨hfirst, hlater⟩ := Run.along_append.mp hok
    rw [List.foldl_append]
    -- From the moment the row is finished, every step keeps it.
    have hkeep : ∀ s label, s.guarded label = true → Inv success s ∧ s.row = some row →
        Inv success (World.step s label) ∧ (World.step s label).row = some row :=
      fun s label hlabel h => ⟨h.1.step hlabel, h.1.row_step hlabel h.2 hfinal⟩
    have hinv : Inv success (first.foldl World.step (World.start o maxAttempts env)) :=
      hfirst.invariant (fun s label hlabel h => h.step hlabel) hstart
    exact (hlater.invariant hkeep ⟨hinv, hrow⟩).2
  · intro hsettled row hrow
    have hinv : Inv success (labels.foldl World.step (World.start o maxAttempts env)) :=
      hok.invariant (fun s label hlabel h => h.step hlabel) hstart
    refine (hinv.pending row hrow).resolve_right fun hcome => ?_
    obtain ⟨hrest, hhandlers⟩ := Bool.and_eq_true_iff.mp hsettled
    rw [World.outcomeToCome, List.isEmpty_iff.mp hrest, List.any_nil, Bool.false_or,
      List.any_eq_true] at hcome
    obtain ⟨handler, hmem, houtcome⟩ := hcome
    have hover := List.all_eq_true.mp hhandlers handler hmem
    rw [beq_iff_eq] at hover
    subst hover
    cases houtcome

theorem hooksHold_of_no_scripts (maxAttempts : Int) (attempts : Nat) (a : Attempt) :
    HooksHold {} maxAttempts attempts a := by
  unfold HooksHold
  split
  · rfl
  · exact fun _ _ => rfl

/-- The repository refuses the password. -/
def wrongPassword : Attempt :=
  { backup := { fault := some ⟨{ message := "wrong password", code := some 12 }, by decide⟩ } }

/-- The row is created, and the attempt goes on to its run. -/
def begins : List Label :=
  [.emit, .emit, .resume 0 {}, .resume 0 {}, .resume 0 {}, .resume 0 {}, .resume 0 {}, .emit, .emit]

/-- A backup fails for good, and the handlers take turns. -/
def failsInTurns : List Label :=
  begins ++ [.emit, .emit, .resume 1 {}, .resume 2 {}, .resume 2 {}, .resume 1 {}, .resume 1 {},
    .emit, .resume 3 {}]

theorem finished_backup_stays_finished_wrongPassword :
    (failsInTurns.foldl World.step (World.start {} 3 fun _ => wrongPassword)).row.isSome = true ∧
      ∀ row,
        (failsInTurns.foldl World.step (World.start {} 3 fun _ => wrongPassword)).row = some row →
        row.isFinal = true :=
  ⟨by decide +kernel, (finished_backup_stays_finished {} 3 (fun _ => wrongPassword)
    (fun k _ => hooksHold_of_no_scripts 3 k wrongPassword) failsInTurns (by decide +kernel)).2 (by
      decide +kernel)⟩

/-- The completion is over before the error is emitted. -/
def completes : List Label := begins ++ [.emit, .resume 1 {}, .resume 1 {}, .emit]

/-- The completion is over before the error, emitted right after it, is handled. -/
def fails : List Label := begins ++ [.emit, .emit, .resume 1 {}, .resume 1 {}, .resume 1 {}]

/-- The error is handled. -/
def errors : List Label := [.resume 2 {}, .resume 2 {}]

/-- A script that aborts after a success turns the row back; and so does the error of a
failure for good whose completion is written first. -/
theorem finished_backup_turned_back :
    (completes.foldl World.step
      (World.start { scripts := { onBackupEnd := [sendReport] } } 5 reportFails)).row =
      some (finalRow true) ∧
    ((completes ++ errors).foldl World.step
        (World.start { scripts := { onBackupEnd := [sendReport] } } 5 reportFails)).row =
      some { status := .retrying, success := some true, inProgress := false } ∧
    (fails.foldl World.step (World.start {} 3 fun _ => wrongPassword)).row = some (finalRow false) ∧
    ((fails ++ errors).foldl World.step (World.start {} 3 fun _ => wrongPassword)).row =
      some { status := .retrying, success := some false, inProgress := false } := by
  decide +kernel

end Pluton.LocalBackup
