-- SUMMARY: Exactly when a backup job has one outcome, over all failures of attempts and hooks.
import Pluton.Ends
import Pluton.LocalBackup.Handler

/-!
# One outcome for each job

The handler decides in the `catch` of an attempt whether the job has failed for good, the
processor decides it again from the error that the attempt throws. A script of a hook that
aborts takes the place of that error, and a script that runs after the event of success
turns the attempt into a failed one.
-/
namespace Pluton.LocalBackup

open EStateM

/-! ## Events -/

namespace Event

def isComplete : Event → Bool
  | .complete _ => true
  | _ => false

def isFailed : Event → Bool
  | .failed _ => true
  | _ => false

def isAttempt : Event → Bool
  | .attempt _ => true
  | _ => false

/-- An event that says nothing of the outcome. -/
def plain (event : Event) : Bool := !event.isComplete && !event.isFailed

/-- An event of an attempt before its outcome. -/
def quiet (event : Event) : Bool := event.plain && !event.isAttempt

end Event

/-- One completion, nothing but progress after a success, and a completion without success
exactly when the processor gives the job up. -/
structure OneOutcome (events : List Event) : Prop where
  once : events.countP Event.isComplete = 1
  final : ∀ pre post, events = pre ++ .complete true :: post →
    ∀ event ∈ post, event.isAttempt = false ∧ event.isFailed = false
  failure : .complete false ∈ events ↔ ∃ message, .failed message ∈ events

/-- What holds of the hooks of an attempt: no script aborts after the event of success, nor
after a failure for good while the processor has attempts left. -/
def HooksHold (o : Options) (maxAttempts : Int) (attempts : Nat) (a : Attempt) : Prop :=
  match phases o a [] with
  | .ok _ _ => runScripts o a .afterBackupOfSuccess = .ok ()
  | .error e _ =>
      e.isNonRetryable = true → attempts + 1 < maxAttempts → afterFailure o a true = .ok ()

/-- The phases of an attempt fail, and the handler leaves the job another attempt. -/
def Retried (o : Options) (maxAttempts : Int) (attempts : Nat) (a : Attempt) : Prop :=
  match phases o a [] with
  | .ok _ _ => False
  | .error e _ => permanentlyFailed attempts maxAttempts e = false

/-! ## Failures that are no cancellation -/

theorem uncancelled_of_message {failure failure' : Failure} (h : failure'.message = failure.message)
    (hun : failure.uncancelled = true) : failure'.uncancelled = true := by
  simpa [Failure.uncancelled, Failure.toTaskError, Jobs.TaskError.isCancellation, h] using hun

/-- A message that starts with a letter of its own. -/
theorem uncancelled_append {text rest : String} {code : Option Int} {retryable : Option Bool}
    (h : text.toList.head?.any (fun ch => ch ≠ 'B' ∧ ch ≠ 'R') = true) :
    Failure.uncancelled { message := text ++ rest, code, retryable } = true := by
  simp only [Failure.uncancelled, Failure.toTaskError, Jobs.TaskError.isCancellation,
    String.toList_append]
  cases htext : text.toList with
  | nil =>
      rw [htext] at h
      cases h
  | cons ch chars =>
      rw [htext, List.head?_cons, Option.any_some, decide_eq_true_eq] at h
      simp [List.isPrefixOf, h.1.symm, h.2.symm]

/-- What a script that aborts throws says nothing of retries. -/
theorem hook_failure {scripts : List PlanScript} {outcome : Nat → Option String} {failure : Failure}
    (h : runScriptsForEvent scripts outcome = .error failure) :
    failure.uncancelled = true ∧ failure.code = none ∧ failure.retryable = none := by
  have hends : (runScriptsForEvent scripts outcome).Ends (fun _ => True)
      fun e => e.uncancelled = true ∧ e.code = none ∧ e.retryable = none := by
    refine Except.ends_forM fun script _ => ?_
    split
    · trivial
    · split
      · split
        · exact ⟨uncancelled_append (by decide), rfl, rfl⟩
        · trivial
      · trivial
  exact hends.of_error h

/-! ## The phases of an attempt -/

/-- Only progress is emitted, and nothing that is thrown is taken for a cancellation. -/
def Calm (x : Run Unit) : Prop :=
  ∀ events, (∀ event ∈ events, Event.quiet event = true) →
    wp x (fun _ events' => ∀ event ∈ events', event.quiet = true)
      (fun e events' => (∀ event ∈ events', event.quiet = true) ∧ e.uncancelled = true) events

theorem calm_pure : Calm (pure ()) := fun _ h => h

theorem calm_throw {e : Failure} (h : e.uncancelled = true) : Calm (throw e) :=
  fun _ hquiet => ⟨hquiet, h⟩

theorem calm_emit {event : Event} (h : event.quiet = true) : Calm (emit event) := by
  intro events hquiet
  rw [emit, wp_modify, List.forall_mem_append, List.forall_mem_singleton]
  exact ⟨hquiet, h⟩

theorem Calm.bind {x : Run Unit} {f : Unit → Run Unit} (hx : Calm x) (hf : ∀ u, Calm (f u)) :
    Calm (x >>= f) :=
  fun events hquiet => (hx events hquiet).bind fun u events' h => hf u events' h

theorem calm_raise (fault : Option Fault) : Calm (raise fault) := by
  cases fault with
  | none => exact calm_pure
  | some fault => exact calm_throw fault.uncancelled

theorem calm_forM {f : String → Run Unit} (hf : ∀ message, Calm (f message)) (l : List String) :
    Calm (l.forM f) := by
  induction l with
  | nil => exact calm_pure
  | cons message l ih => exact (hf message).bind fun _ => ih

theorem calm_runScripts (o : Options) (a : Attempt) (hook : Hook) :
    Calm (MonadExcept.ofExcept (runScripts o a hook)) := by
  intro events hquiet
  rw [wp_ofExcept]
  exact ⟨fun _ _ => hquiet, fun e he => ⟨hquiet, (hook_failure he).1⟩⟩

/-- What is caught and turned into something else. -/
theorem Calm.observe {x : Run Unit} (hx : Calm x) {f : Except Failure Unit → Run Unit}
    (hok : Calm (f (.ok ()))) (herror : ∀ e, e.uncancelled = true → Calm (f (.error e))) :
    Calm (EStateM.observe x >>= f) := by
  intro events hquiet
  rw [wp_bind, wp_observe]
  exact (hx events hquiet).mono (fun _ events' h => hok events' h) fun e events' h =>
    herror e h.2 events' h.1

theorem calm_runRestic (r : ResticRun) : Calm (runRestic r) :=
  (calm_forM (fun _ => calm_emit rfl) r.errors).bind fun _ => calm_raise r.fault

theorem calm_waitForBackupCreation (o : Options) (a : Attempt) :
    Calm (waitForBackupCreation o a) := by
  unfold waitForBackupCreation
  split
  · exact calm_emit rfl
  · exact calm_throw (uncancelled_append (by decide))

theorem calm_dryRunBackup (o : Options) (a : Attempt) : Calm (dryRunBackup o a) := by
  unfold dryRunBackup
  split
  · exact calm_pure
  · refine (calm_runRestic a.dryRun).observe calm_pure fun e _ => ?_
    show Calm (if o.ignoreErrors = true then pure () else throw _)
    split
    · exact calm_pure
    · exact calm_throw (uncancelled_append (by decide))

theorem calm_unlockStaleLocks (a : Attempt) : Calm (unlockStaleLocks a) := by
  unfold unlockStaleLocks
  split
  · exact calm_throw (uncancelled_append (by decide))
  · exact calm_pure

theorem calm_preBackupPhase (o : Options) (a : Attempt) : Calm (preBackupPhase o a) :=
  (calm_emit rfl).bind fun _ => (calm_waitForBackupCreation o a).bind fun _ =>
    (calm_dryRunBackup o a).bind fun _ =>
      (calm_emit rfl).bind fun _ => (calm_raise a.canRun).bind fun _ =>
        (calm_runScripts o a .beforeBackup).bind fun _ => calm_unlockStaleLocks a

theorem calm_executeBackupPhase (o : Options) (a : Attempt) : Calm (executeBackupPhase o a) := by
  refine (calm_runRestic a.backup).observe calm_pure fun e he => ?_
  show Calm (if o.ignoreErrors = true then pure () else throw e)
  split
  · exact calm_pure
  · exact calm_throw he

theorem calm_phases (o : Options) (a : Attempt) : Calm (phases o a) := by
  refine (calm_raise a.createArgs).bind fun _ => (calm_preBackupPhase o a).bind fun _ =>
    (calm_executeBackupPhase o a).bind fun _ =>
      (calm_runScripts o a .afterBackupSuccess).bind fun _ => ?_
  show Calm (if o.replication = true then raise a.replication else pure ())
  split
  · exact calm_raise a.replication
  · exact calm_pure

theorem phases_ok_quiet {o : Options} {a : Attempt} {events : List Event}
    (h : phases o a [] = .ok () events) :
    ∀ event ∈ events, event.quiet = true := by
  have hcalm := calm_phases o a [] (fun _ hmem => absurd hmem List.not_mem_nil)
  rwa [wp, h] at hcalm

theorem phases_error_quiet {o : Options} {a : Attempt} {e : Failure} {events : List Event}
    (h : phases o a [] = .error e events) :
    (∀ event ∈ events, event.quiet = true) ∧ e.uncancelled = true := by
  have hcalm := calm_phases o a [] (fun _ hmem => absurd hmem List.not_mem_nil)
  rwa [wp, h] at hcalm

/-! ## The verdicts of the handler and of the processor -/

theorem not_cancelled {e : Failure} (h : e.uncancelled = true) :
    ¬ "BACKUP_CANCELLED:".toList.isPrefixOf e.message.toList = true := by
  simp only [Failure.uncancelled, Failure.toTaskError,
    Jobs.TaskError.isCancellation, Bool.not_eq_true', Bool.or_eq_false_iff] at h
  rw [h.1]
  exact Bool.false_ne_true

theorem afterFailure_failure {o : Options} {a : Attempt} {permanently : Bool} {f : Failure}
    (h : afterFailure o a permanently = .error f) : f.uncancelled = true ∧ f.retryable = none := by
  cases permanently with
  | false =>
      obtain ⟨hun, -, hretryable⟩ := hook_failure h
      exact ⟨hun, hretryable⟩
  | true =>
      simp only [afterFailure, if_true] at h
      cases hfirst : runScripts o a .afterBackupFailure with
      | error g =>
          rw [hfirst] at h
          cases h
          obtain ⟨hun, -, hretryable⟩ := hook_failure hfirst
          exact ⟨hun, hretryable⟩
      | ok u =>
          rw [hfirst] at h
          obtain ⟨hun, -, hretryable⟩ :=
            hook_failure (show runScripts o a .afterBackupOfFailure = .error f from h)
          exact ⟨hun, hretryable⟩

/-- What the handler emits once it has caught an error. -/
def caughtEvents (attempts : Nat) (maxAttempts : Int) (e : Failure) : List Event :=
  (if permanentlyFailed attempts maxAttempts e then [.complete false] else []) ++ [.error e.message]

/-- The error with which an attempt ends once the handler has caught one. -/
def thrown (o : Options) (attempts : Nat) (maxAttempts : Int) (a : Attempt) (e : Failure) :
    Failure :=
  match afterFailure o a (permanentlyFailed attempts maxAttempts e) with
  | .ok _ => { e with retryable := some (!e.isNonRetryable) }
  | .error f => f

theorem catchFailure_eq {o : Options} {attempts : Nat} {maxAttempts : Int} {a : Attempt}
    {e : Failure} (he : e.uncancelled = true) (events : List Event) :
    catchFailure o attempts maxAttempts a e events =
      .error (thrown o attempts maxAttempts a e) (events ++
        caughtEvents attempts maxAttempts e) := by
  unfold catchFailure thrown caughtEvents
  rw [if_neg (not_cancelled he)]
  rw [← List.append_assoc]
  cases permanentlyFailed attempts maxAttempts e with
  | true => cases afterFailure o a true <;> rfl
  | false =>
      simp only [Bool.false_eq_true, if_false, List.append_nil]
      cases afterFailure o a false <;> rfl

/-! ## What an attempt does -/

theorem verdict_thrown {attempts : Nat} {maxAttempts : Int} {f : Failure}
    (hf : f.uncancelled = true) :
    (backupJob maxAttempts attempts).verdict (.rejected (some f.toTaskError)) =
      if f.retryable = some false ∨ maxAttempts ≤ attempts + 1 then .failed else .again := by
  have hcancel : f.toTaskError.isCancellation = false := by simpa [Failure.uncancelled] using hf
  have hretries : (backupJob maxAttempts attempts).retriesLeft =
      decide ((attempts + 1 : Int) < maxAttempts) := rfl
  have hretryable : f.toTaskError.retryable = f.retryable := rfl
  simp only [Jobs.Job.verdict, hcancel, hretries, hretryable, Bool.false_eq_true,
    if_false, decide_eq_true_eq]
  by_cases hfinal : f.retryable = some false
  · rw [if_pos hfinal, if_pos (.inl hfinal)]
  · rw [if_neg hfinal]
    by_cases hleft : (attempts + 1 : Int) < maxAttempts
    · rw [if_pos hleft, if_neg (not_or.mpr ⟨hfinal, Int.not_le.mpr hleft⟩)]
    · rw [if_neg hleft, if_pos (.inr (Int.not_lt.mp hleft))]

theorem thrown_uncancelled {o : Options} {attempts : Nat} {maxAttempts : Int} {a : Attempt}
    {e : Failure} (he : e.uncancelled = true) :
    (thrown o attempts maxAttempts a e).uncancelled = true := by
  unfold thrown
  split
  · exact uncancelled_of_message rfl he
  · next f hf => exact (afterFailure_failure hf).1

/-- The processor gives the job up after an error that the handler has caught. -/
def GivenUp (o : Options) (attempts : Nat) (maxAttempts : Int) (a : Attempt) (e : Failure) : Prop :=
  (thrown o attempts maxAttempts a e).retryable = some false ∨ maxAttempts ≤ attempts + 1

instance (o : Options) (attempts : Nat) (maxAttempts : Int) (a : Attempt) (e : Failure) :
    Decidable (GivenUp o attempts maxAttempts a e) := inferInstanceAs (Decidable (_ ∨ _))

theorem attempt_of_error {o : Options} {attempts : Nat} {maxAttempts : Int} {a : Attempt}
    {e : Failure} {events : List Event} (h : tryBackup o a [] = .error e events)
    (he : e.uncancelled = true) :
    attempt o attempts maxAttempts a =
      if GivenUp o attempts maxAttempts a e then
        (.attempt attempts :: (events ++ caughtEvents attempts maxAttempts e) ++
          [.failed (thrown o attempts maxAttempts a e).message], .failed)
      else (.attempt attempts :: (events ++ caughtEvents attempts maxAttempts e), .again) := by
  have hexecute : execute o attempts maxAttempts a [] =
      .error (thrown o attempts maxAttempts a e) (events ++
        caughtEvents attempts maxAttempts e) := by
    rw [← catchFailure_eq he events]
    simp only [execute, bind, EStateM.bind, observe, h]
  have hverdict : (backupJob maxAttempts attempts).verdict
      (.rejected (some (thrown o attempts maxAttempts a e).toTaskError)) =
      if GivenUp o attempts maxAttempts a e then .failed else .again :=
        verdict_thrown (thrown_uncancelled he)
  by_cases hgiven : GivenUp o attempts maxAttempts a e
  · rw [if_pos hgiven] at hverdict ⊢
    simp only [attempt, hexecute, hverdict]
  · rw [if_neg hgiven] at hverdict ⊢
    simp only [attempt, hexecute, hverdict]

theorem attempt_of_ok {o : Options} {attempts : Nat} {maxAttempts : Int} {a : Attempt}
    {events : List Event} (h : tryBackup o a [] = .ok () events) :
    attempt o attempts maxAttempts a = (.attempt attempts :: events, .completed) := by
  have hexecute : execute o attempts maxAttempts a [] = .ok () events := by
    simp only [execute, bind, EStateM.bind, observe, h, pure, EStateM.pure]
  simp only [attempt, hexecute, Jobs.Job.verdict]

/-- The phases succeed; what is left are the scripts after the event of success. -/
theorem tryBackup_of_ok {o : Options} {a : Attempt} {events : List Event}
    (h : phases o a [] = .ok () events) :
    tryBackup o a [] =
      match runScripts o a .afterBackupOfSuccess with
      | .ok _ => .ok () (events ++ [.complete true])
      | .error f => .error f (events ++ [.complete true]) := by
  simp only [tryBackup, bind, EStateM.bind, h]
  cases runScripts o a .afterBackupOfSuccess <;> rfl

theorem tryBackup_of_error {o : Options} {a : Attempt} {e : Failure} {events : List Event}
    (h : phases o a [] = .error e events) : tryBackup o a [] = .error e events := by
  simp only [tryBackup, bind, EStateM.bind, h]

section Attempts

variable {o : Options} {maxAttempts : Int} {attempts : Nat} {a : Attempt} {e : Failure}
  {events : List Event}

theorem permanentlyFailed_eq_false :
    permanentlyFailed attempts maxAttempts e = false ↔
    (attempts + 1 : Int) < maxAttempts ∧ e.isNonRetryable = false := by
  simp [permanentlyFailed]

/-- The error that follows a failure for good tells the processor so, unless a script aborts. -/
theorem givenUp_of_ok (hhooks : afterFailure o a true = .ok ()) (he : e.isNonRetryable = true) :
    GivenUp o attempts maxAttempts a e := by
  left
  have hpermanent : permanentlyFailed attempts maxAttempts e = true := by
    simp [permanentlyFailed, he]
  simp [thrown, hpermanent, hhooks, he]

theorem not_givenUp (hleft : (attempts + 1 : Int) < maxAttempts)
    (hretryable : e.isNonRetryable = false ∨ ∃ f, afterFailure o a true = .error f) :
    ¬ GivenUp o attempts maxAttempts a e := by
  rintro (hfinal | hexhausted)
  · unfold thrown at hfinal
    split at hfinal
    · next u hok =>
      rcases hretryable with hcode | ⟨f, hf⟩
      · simp [hcode] at hfinal
      · cases hcode : e.isNonRetryable with
        | false => simp [hcode] at hfinal
        | true =>
            have hpermanent : permanentlyFailed attempts maxAttempts e = true := by
              simp [permanentlyFailed, hcode]
            rw [hpermanent, hf] at hok
            cases hok
    · next f hf =>
      rw [(afterFailure_failure hf).2] at hfinal
      cases hfinal
  · exact absurd hexhausted (Int.not_le.mpr hleft)

theorem attempt_succeeds (h : phases o a [] = .ok () events)
    (hhook : runScripts o a .afterBackupOfSuccess = .ok ()) :
    attempt o attempts maxAttempts a =
      (.attempt attempts :: (events ++ [.complete true]), .completed) := by
  refine attempt_of_ok ?_
  rw [tryBackup_of_ok h, hhook]

theorem attempt_gives_up (h : phases o a [] = .error e events)
    (hpermanent : permanentlyFailed attempts maxAttempts e = true)
    (hhooks : e.isNonRetryable = true → (attempts + 1 : Int) < maxAttempts →
      afterFailure o a true = .ok ()) :
    ∃ message, attempt o attempts maxAttempts a =
      (.attempt attempts :: (events ++ [.complete false, .error e.message]) ++ [.failed message],
        .failed) := by
  have hgiven : GivenUp o attempts maxAttempts a e := by
    rcases lt_or_ge (attempts + 1 : Int) maxAttempts with hleft | hexhausted
    · have hcode : e.isNonRetryable = true := by
        simpa [permanentlyFailed, Int.not_le.mpr hleft] using hpermanent
      exact givenUp_of_ok (hhooks hcode hleft) hcode
    · exact .inr hexhausted
  refine ⟨(thrown o attempts maxAttempts a e).message, ?_⟩
  rw [attempt_of_error (tryBackup_of_error h) (phases_error_quiet h).2, if_pos hgiven,
    caughtEvents, hpermanent]
  rfl

theorem attempt_retries (h : phases o a [] = .error e events)
    (hpermanent : permanentlyFailed attempts maxAttempts e = false) :
    attempt o attempts maxAttempts a =
      (.attempt attempts :: (events ++ [.error e.message]), .again) := by
  obtain ⟨hleft, hcode⟩ := permanentlyFailed_eq_false.mp hpermanent
  rw [attempt_of_error (tryBackup_of_error h) (phases_error_quiet h).2,
    if_neg (not_givenUp hleft (.inl hcode)), caughtEvents, hpermanent]
  rfl

end Attempts

/-! ## Lists of events -/

section Lists

variable {pre rest events : List Event}

theorem plain_of_quiet (h : ∀ event ∈ events, event.quiet = true) :
    ∀ event ∈ events, event.plain = true :=
  fun event hevent => (Bool.and_eq_true_iff.mp (h event hevent)).1

theorem plain_attempt {attempts : Nat} (h : ∀ event ∈ events, event.quiet = true) :
    ∀ event ∈ Event.attempt attempts :: events, event.plain = true :=
  List.forall_mem_cons.mpr ⟨rfl, plain_of_quiet h⟩

theorem countP_of_plain (h : ∀ event ∈ events, event.plain = true) :
    events.countP Event.isComplete = 0 := by
  rw [List.countP_eq_zero]
  intro event hevent hcomplete
  have hplain := h event hevent
  simp [Event.plain, hcomplete] at hplain

theorem complete_not_mem_of_plain (h : ∀ event ∈ events, event.plain = true) (success : Bool) :
    .complete success ∉ events := by
  intro hmem
  have hplain := h _ hmem
  cases hplain

/-- Events that say nothing of the outcome may come first. -/
theorem oneOutcome_append (hplain : ∀ event ∈ pre, event.plain = true) :
    OneOutcome (pre ++ rest) ↔ OneOutcome rest := by
  have hcount : (pre ++ rest).countP Event.isComplete = rest.countP Event.isComplete := by
    rw [List.countP_append, countP_of_plain hplain, Nat.zero_add]
  have hcomplete : .complete false ∈ pre ++ rest ↔ .complete false ∈ rest := by
    simp [complete_not_mem_of_plain hplain false]
  have hfailed : ∀ message, .failed message ∈ pre ++ rest ↔ .failed message ∈ rest := by
    intro message
    have hnone : .failed message ∉ pre := fun hmem => by cases hplain _ hmem
    simp [hnone]
  constructor
  · intro h
    refine ⟨hcount ▸ h.once, ?_, ?_⟩
    · intro front post heq
      refine h.final (pre ++ front) post ?_
      rw [heq, List.append_assoc]
    · rw [← hcomplete, h.failure]
      simp only [hfailed]
  · intro h
    refine ⟨hcount.trans h.once, ?_, ?_⟩
    · intro front post heq
      rcases List.append_eq_append_iff.mp heq with ⟨mid, hfront, hrest⟩ | ⟨mid, hpre, htail⟩
      · exact h.final mid post hrest
      · cases mid with
        | nil => exact h.final [] post (by simpa using htail.symm)
        | cons event mid =>
            rw [List.cons_append] at htail
            injection htail with hhead
            refine absurd ?_ (complete_not_mem_of_plain hplain true)
            rw [hpre, hhead]
            exact List.mem_append_right _ List.mem_cons_self
    · rw [hcomplete, h.failure]
      simp only [hfailed]

theorem oneOutcome_success : OneOutcome [.complete true] where
  once := rfl
  final := by
    intro front post heq
    cases front with
    | nil =>
        injection heq with _ hpost
        subst hpost
        exact fun _ hmem => absurd hmem List.not_mem_nil
    | cons event front => simp at heq
  failure := by simp

theorem oneOutcome_failure {message failure : String} :
    OneOutcome [.complete false, .error message, .failed failure] where
  once := rfl
  final := by
    intro front post heq
    have hmem : Event.complete true ∈ [Event.complete false, .error message, .failed failure] :=
      heq ▸ List.mem_append_right _ List.mem_cons_self
    simp at hmem
  failure := by simp

end Lists

/-! ## Whole jobs -/

section Jobs

variable {o : Options} {maxAttempts : Int} {env : Nat → Attempt} {more attempts : Nat}
  {events : List Event}

theorem eventsFrom_of_again (h : (attempt o attempts maxAttempts (env attempts)).2 = .again) :
    eventsFrom o maxAttempts env (more + 1) attempts =
      (attempt o attempts maxAttempts (env attempts)).1 ++
      eventsFrom o maxAttempts env more (attempts + 1) := by
  simp only [eventsFrom, h]

theorem eventsFrom_of_end (h : (attempt o attempts maxAttempts (env attempts)).2 ≠ .again) :
    eventsFrom o maxAttempts env more attempts =
      (attempt o attempts maxAttempts (env attempts)).1 := by
  rw [eventsFrom]
  exact fun _ hagain => absurd hagain h

/-- Enough attempts are allowed for another one. -/
theorem exists_more (hmore : maxAttempts ≤ attempts + more)
    (hleft : (attempts + 1 : Int) < maxAttempts) :
    ∃ fewer, more = fewer + 1 ∧ maxAttempts ≤ (attempts + 1 : Nat) + fewer := by
  cases more with
  | zero => omega
  | succ fewer => exact ⟨fewer, rfl, by omega⟩

/-- Completions of one attempt are completions of the job. -/
theorem le_eventsFrom {n : Nat}
    (h : n ≤ (attempt o attempts maxAttempts (env attempts)).1.countP Event.isComplete) :
    n ≤ (eventsFrom o maxAttempts env more attempts).countP Event.isComplete := by
  by_cases hagain : (attempt o attempts maxAttempts (env attempts)).2 = .again
  · cases more with
    | zero =>
        rw [eventsFrom]
        · exact h
        · exact fun _ _ => Nat.noConfusion
    | succ more =>
        rw [eventsFrom_of_again hagain, List.countP_append]
        exact Nat.le_add_right_of_le h
  · rwa [eventsFrom_of_end hagain]

/-- An event of success stays, whatever the scripts after it do. -/
theorem attempt_completes {a : Attempt} (h : phases o a [] = .ok () events) :
    1 ≤ (attempt o attempts maxAttempts a).1.countP Event.isComplete := by
  have hmem : Event.complete true ∈ (attempt o attempts maxAttempts a).1 := by
    cases hhook : runScripts o a .afterBackupOfSuccess with
    | ok u =>
        rw [attempt_succeeds h hhook]
        simp
    | error f =>
        have htry : tryBackup o a [] = .error f (events ++ [.complete true]) := by
          rw [tryBackup_of_ok h, hhook]
        rw [attempt_of_error htry (hook_failure hhook).1]
        split <;> simp
  exact List.one_le_countP_iff.mpr ⟨_, hmem, rfl⟩

/-- What the handler says when it gives the job up. -/
theorem attempt_completes_failure {a : Attempt} {e : Failure} (h : phases o a [] = .error e events)
    (hpermanent : permanentlyFailed attempts maxAttempts e = true) :
    1 ≤ (attempt o attempts maxAttempts a).1.countP Event.isComplete := by
  have hmem : Event.complete false ∈ (attempt o attempts maxAttempts a).1 := by
    rw [attempt_of_error (tryBackup_of_error h) (phases_error_quiet h).2, caughtEvents, hpermanent]
    split <;> simp
  exact List.one_le_countP_iff.mpr ⟨_, hmem, rfl⟩

theorem eventsFrom_completes (hmore : maxAttempts ≤ attempts + more) :
    1 ≤ (eventsFrom o maxAttempts env more attempts).countP Event.isComplete := by
  induction more generalizing attempts with
  | zero =>
      refine le_eventsFrom ?_
      cases hphases : phases o (env attempts) [] with
      | ok u events => exact attempt_completes hphases
      | error e events =>
          refine attempt_completes_failure hphases ?_
          simp only [permanentlyFailed, Bool.or_eq_true, decide_eq_true_eq]
          left
          omega
  | succ more ih =>
      cases hphases : phases o (env attempts) [] with
      | ok u events => exact le_eventsFrom (attempt_completes hphases)
      | error e events =>
          cases hpermanent : permanentlyFailed attempts maxAttempts e with
          | true => exact le_eventsFrom (attempt_completes_failure hphases hpermanent)
          | false =>
              rw [eventsFrom_of_again (by rw [attempt_retries hphases hpermanent]),
                List.countP_append]
              exact Nat.le_add_left_of_le (ih (by push_cast; omega))

theorem not_oneOutcome_of_again (hmore : maxAttempts ≤ attempts + more)
    (hleft : (attempts + 1 : Int) < maxAttempts)
    (hagain : (attempt o attempts maxAttempts (env attempts)).2 = .again)
    (hcompletes : 1 ≤ (attempt o attempts maxAttempts (env attempts)).1.countP Event.isComplete) :
    ¬ OneOutcome (eventsFrom o maxAttempts env more attempts) := by
  intro hone
  obtain ⟨fewer, rfl, hfewer⟩ := exists_more hmore hleft
  have honce := hone.once
  rw [eventsFrom_of_again hagain, List.countP_append] at honce
  have hlater : 1 ≤ (eventsFrom o maxAttempts env fewer (attempts + 1)).countP Event.isComplete :=
    eventsFrom_completes hfewer
  omega

/-- An attempt whose phases succeed settles the job exactly when the
scripts after it do not abort. -/
theorem outcome_of_success (hmore : maxAttempts ≤ attempts + more)
    (h : phases o (env attempts) [] = .ok () events) :
    OneOutcome (eventsFrom o maxAttempts env more attempts) ↔
      runScripts o (env attempts) .afterBackupOfSuccess = .ok () := by
  cases hhook : runScripts o (env attempts) .afterBackupOfSuccess with
  | ok u =>
      have hattempt : attempt o attempts maxAttempts (env attempts) =
          (.attempt attempts :: (events ++ [.complete true]), .completed) :=
            attempt_succeeds h hhook
      rw [eventsFrom_of_end (by rw [hattempt]; exact Jobs.Verdict.noConfusion),
        hattempt, ← List.cons_append, oneOutcome_append (plain_attempt (phases_ok_quiet h))]
      exact iff_of_true oneOutcome_success rfl
  | error f =>
      refine iff_of_false ?_ (fun hok => by cases hok)
      have htry : tryBackup o (env attempts) [] = .error f (events ++ [.complete true]) := by
        rw [tryBackup_of_ok h, hhook]
      obtain ⟨hun, hcode, -⟩ := hook_failure hhook
      rcases lt_or_ge (attempts + 1 : Int) maxAttempts with hleft | hexhausted
      · refine not_oneOutcome_of_again hmore hleft ?_ (attempt_completes h)
        have hnot : ¬ GivenUp o attempts maxAttempts (env attempts) f :=
          not_givenUp hleft (.inl (by simp [Failure.isNonRetryable, hcode]))
        rw [attempt_of_error htry hun, if_neg hnot]
      · intro hone
        have honce := hone.once
        have hpermanent : permanentlyFailed attempts maxAttempts f = true := by
          simp only [permanentlyFailed, Bool.or_eq_true, decide_eq_true_eq]
          exact .inl hexhausted
        have hgiven : GivenUp o attempts maxAttempts (env attempts) f := .inr hexhausted
        rw [eventsFrom_of_end (by
          rw [attempt_of_error htry hun, if_pos hgiven]; exact Jobs.Verdict.noConfusion),
          attempt_of_error htry hun, if_pos hgiven, caughtEvents, hpermanent] at honce
        simp [List.countP_cons, Event.isComplete] at honce

/-- A failure for good settles the job exactly when no script hides it from a
processor with attempts left. -/
theorem outcome_of_permanent {e : Failure} (hmore : maxAttempts ≤ attempts + more)
    (h : phases o (env attempts) [] = .error e events)
    (hpermanent : permanentlyFailed attempts maxAttempts e = true) :
    OneOutcome (eventsFrom o maxAttempts env more attempts) ↔
      (e.isNonRetryable = true → (attempts + 1 : Int) < maxAttempts →
        afterFailure o (env attempts) true = .ok ()) := by
  by_cases hhooks : e.isNonRetryable = true → (attempts + 1 : Int) < maxAttempts →
    afterFailure o (env attempts) true = .ok ()
  · refine iff_of_true ?_ hhooks
    obtain ⟨message, hattempt⟩ := attempt_gives_up h hpermanent hhooks
    rw [eventsFrom_of_end (by rw [hattempt]; exact Jobs.Verdict.noConfusion),
      hattempt, ← List.cons_append, List.append_assoc,
      oneOutcome_append (plain_attempt (phases_error_quiet h).1)]
    exact oneOutcome_failure
  · refine iff_of_false ?_ hhooks
    simp only [not_forall] at hhooks
    obtain ⟨hcode, hleft, hafter⟩ := hhooks
    cases hfailure : afterFailure o (env attempts) true with
    | ok u => exact absurd hfailure hafter
    | error f =>
        refine not_oneOutcome_of_again hmore hleft ?_ (attempt_completes_failure h hpermanent)
        rw [attempt_of_error (tryBackup_of_error h) (phases_error_quiet h).2,
          if_neg (not_givenUp hleft (.inr ⟨f, hfailure⟩))]

/-- An attempt that the handler leaves to be made again says nothing of the outcome. -/
theorem outcome_of_retry {e : Failure} (h : phases o (env attempts) [] = .error e events)
    (hpermanent : permanentlyFailed attempts maxAttempts e = false) :
    OneOutcome (eventsFrom o maxAttempts env (more + 1) attempts) ↔
      OneOutcome (eventsFrom o maxAttempts env more (attempts + 1)) := by
  have hattempt := attempt_retries h hpermanent
  rw [eventsFrom_of_again (by rw [hattempt]), hattempt]
  refine oneOutcome_append ?_
  rw [← List.cons_append, List.forall_mem_append, List.forall_mem_singleton]
  exact ⟨plain_attempt (phases_error_quiet h).1, rfl⟩

/-- The attempts that are reached are the first one and those after a retried one. -/
theorem forall_reached {R H : Nat → Prop} {n : Nat} :
    (∀ k, n ≤ k → (∀ m, n ≤ m → m < k → R m) → H k) ↔
      H n ∧ (R n → ∀ k, n + 1 ≤ k → (∀ m, n + 1 ≤ m → m < k → R m) → H k) := by
  constructor
  · intro h
    refine ⟨h n (Nat.le_refl n) fun m hm hlt => absurd hm (Nat.not_le.mpr hlt),
      fun hfirst k hk hretried => ?_⟩
    refine h k (Nat.le_of_succ_le hk) fun m hm hlt => ?_
    rcases Nat.eq_or_lt_of_le hm with rfl | hlater
    · exact hfirst
    · exact hretried m hlater hlt
  · rintro ⟨hfirst, hlater⟩ k hk hretried
    rcases Nat.eq_or_lt_of_le hk with rfl | hlt
    · exact hfirst
    · exact hlater (hretried n (Nat.le_refl n) hlt) k hlt fun m hm =>
        hretried m (Nat.le_of_succ_le hm)

/-- The attempt is the last one unless the handler leaves it to be made again. -/
theorem outcome_of_last (hmore : maxAttempts ≤ attempts + more)
    (h : ¬ Retried o maxAttempts attempts (env attempts)) :
    OneOutcome (eventsFrom o maxAttempts env more attempts) ↔
    HooksHold o maxAttempts attempts (env attempts) := by
  cases hphases : phases o (env attempts) [] with
  | ok u events => rw [outcome_of_success hmore hphases, HooksHold, hphases]
  | error e events =>
      have hpermanent : permanentlyFailed attempts maxAttempts e = true := by
        simpa [Retried, hphases] using h
      rw [outcome_of_permanent hmore hphases hpermanent, HooksHold, hphases]

theorem outcome_from (hmore : maxAttempts ≤ attempts + more) :
    OneOutcome (eventsFrom o maxAttempts env more attempts) ↔
      ∀ k, attempts ≤ k → (∀ m, attempts ≤ m → m < k → Retried o maxAttempts m (env m)) →
        HooksHold o maxAttempts k (env k) := by
  induction more generalizing attempts with
  | zero =>
      have hlast : ¬ Retried o maxAttempts attempts (env attempts) := by
        unfold Retried
        split
        · exact id
        · rw [permanentlyFailed_eq_false]
          omega
      rw [forall_reached, outcome_of_last hmore hlast]
      exact (and_iff_left fun hretried => absurd hretried hlast).symm
  | succ more ih =>
      rw [forall_reached]
      by_cases hretried : Retried o maxAttempts attempts (env attempts)
      · cases hphases : phases o (env attempts) [] with
        | ok u events => simp [Retried, hphases] at hretried
        | error e events =>
            have hpermanent : permanentlyFailed attempts maxAttempts e = false := by
              simpa [Retried, hphases] using hretried
            have hhooks : HooksHold o maxAttempts attempts (env attempts) := by
              simp [HooksHold, hphases, (permanentlyFailed_eq_false.mp hpermanent).2]
            rw [outcome_of_retry hphases hpermanent, ih (by push_cast; omega), and_iff_right hhooks,
              forall_prop_of_true hretried]
      · rw [outcome_of_last hmore hretried]
        exact (and_iff_left fun hr => absurd hr hretried).symm

end Jobs

/-- A backup job has one outcome exactly when no script aborts after the event of success, and
none after a failure that only the handler takes for final. -/
theorem one_outcome_per_job (o : Options) (maxAttempts : Int) (env : Nat → Attempt) :
    OneOutcome (jobEvents o maxAttempts env) ↔
      ∀ k, (∀ m < k, Retried o maxAttempts m (env m)) → HooksHold o maxAttempts k (env k) := by
  rw [jobEvents, outcome_from (by have := Int.self_le_toNat maxAttempts; omega)]
  simp only [Nat.zero_le, true_imp_iff]

/-! ## A script that aborts -/

def sendReport : PlanScript := { scriptPath := "/scripts/report.sh", abortOnError := true }

/-- The script after each backup fails once, in the first attempt. -/
def reportFails (attempts : Nat) : Attempt :=
  { script := fun hook _ =>
    if attempts = 0 ∧ hook = .afterBackupOfSuccess then some "exit code 1" else none }

/-- A backup that has succeeded is made again, and succeeds a second time. -/
theorem succeeded_backup_made_again :
    jobEvents { scripts := { onBackupEnd := [sendReport] } } 5 reportFails =
        [.attempt 0, .init, .created, .start, .complete true,
          .error "Critical 'beforeBackup' hook failed: exit code 1",
          .attempt 1, .init, .created, .start, .complete true] ∧
      ¬ OneOutcome (jobEvents { scripts := { onBackupEnd := [sendReport] } } 5 reportFails) := by
  have hevents : jobEvents { scripts := { onBackupEnd := [sendReport] } } 5 reportFails =
      [.attempt 0, .init, .created, .start, .complete true,
        .error "Critical 'beforeBackup' hook failed: exit code 1",
        .attempt 1, .init, .created, .start, .complete true] := by
    decide +kernel
  refine ⟨hevents, fun hone => ?_⟩
  have honce := hone.once
  rw [hevents] at honce
  exact absurd honce (by decide)

end Pluton.LocalBackup
