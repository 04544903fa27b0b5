-- SUMMARY: The verdict on a publication race, for every order and every lost journal write.
import Pluton.WriteOnce.Settling

/-!
# The verdict on a race

The end of a race adds flags and a proof to a race whose receipts are all journaled, so
what the record shows of a won race is what its competitors were answered. A race that
lost a receipt is never turned into a proof, neither by the call nor by a later cleanup.
-/
namespace Pluton.WriteOnce

variable {env : Env} {w w' : World} {job : ExportJob} {replies : Nat → Reply}
  {race : ExportPublicationRace} {protocol : Option Protocol}
  {attempts : List ExportPublicationAttempt} {proofs : List OwnedObject} {includePut : Bool}
  {order : List Nat} {bodies : Bodies} {a : ExportPublicationAttempt}

open EStateM

/-! ## Concluding -/

theorem settleRaceUpload_reaches {attempt : ExportPublicationAttempt} {w₀ : World}
    (h : Reaches env w₀ w) :
    wp (settleRaceUpload env race attempt) (fun _ => Reaches env w₀) (fun _ => Runs env w₀) w := by
  unfold settleRaceUpload
  rw [wp_bind, wp_currentJob, wp_bind, wp_refuseIf]
  refine ⟨fun _ => h.1, fun htracked => ?_⟩
  obtain ⟨uploadId, huploadId⟩ : ∃ uploadId, uploadId = attempt.uploadId.getD "" := ⟨_, rfl⟩
  dsimp only
  rw [← huploadId]
  have hown : { key := race.key, uploadId := uploadId } ∈ w.record.ownedUploads := by
    rw [h.2.congr ExportJob.ownedUploads fun _ => rfl, huploadId]
    simp only [Bool.not_eq_false', tracked, Bool.and_eq_true, List.any_eq_true,
      beq_iff_eq] at htracked
    obtain ⟨-, upload, hmem, hkey, hid⟩ := htracked
    rw [← hid, Option.getD_some, ← hkey]
    exact hmem
  have habort : wp (abortRejected env w.job race.key uploadId attempt.outcome)
      (fun _ w' => Reaches env w₀ w' ∧ w'.job = w.job) (fun _ => Runs env w₀) w := by
    unfold abortRejected
    rw [wp_ite]
    refine ⟨fun _ => ?_, fun _ => ⟨h, rfl⟩⟩
    refine (abortUpload_spec hown).mono ?_ fun _ _ hp => h.1.trans hp
    rintro _ _ ⟨response, rfl⟩
    exact ⟨⟨h.1.tail (.ask response hown), h.2⟩, rfl⟩
  refine habort.bind ?_
  rintro abortAcknowledged w₁ ⟨h₁, hjob₁⟩
  refine h₁.wp (partsAbsent_spec w.job race.key uploadId (exportTarget race.key)) ?_
  rintro _ _ ⟨response, rfl⟩
  have h₂ : Reaches env w₀ (w₁.push (.listParts race.key uploadId) response) := h₁.push rfl response
  cases hrace : w.job.race race.key with
  | none => exact h₂.1
  | some current =>
      have hcurrent : (w₁.push (.listParts race.key uploadId) response).job.race current.key =
          some current := by
        rw [race_key hrace, World.push_job, hjob₁]
        exact hrace
      have hchange : Change env (w₁.push (.listParts race.key uploadId) response) _ :=
        .uploadAbsent uploadId abortAcknowledged hcurrent
      refine (saveRace_spec hchange).mono ?_ fun _ _ hp => h₂.1.trans hp
      rintro _ _ rfl
      exact h₂.wrote hchange owned_setRace

theorem settleRaceUploads_reaches {w₀ : World} (h : Reaches env w₀ w) :
    wp (settleRaceUploads env race) (fun _ => Reaches env w₀) (fun _ => Runs env w₀) w := by
  unfold settleRaceUploads
  refine EStateM.wp.bind
    (wp_forM (I := Reaches env w₀) (fun _ _ _ hs => settleRaceUpload_reaches hs) h) ?_
  intro _ w₁ h₁
  refine (assertRaceUploadsAbsent_spec race).mono ?_ fun _ _ hp => h₁.1.trans hp
  rintro _ _ ⟨response, rfl⟩
  exact h₁.push rfl response

theorem proveWinner_runs {key : String} {w₀ : World} (h : Reaches env w₀ w) :
    wp (proveWinner env key) (fun _ => Runs env w₀) (fun _ => Runs env w₀) w := by
  unfold proveWinner
  rw [wp_bind, wp_currentJob]
  cases hrace : w.job.race key with
  | none => exact h.1
  | some settled =>
      obtain rfl := race_key hrace
      dsimp only
      cases hwinner : publicationWinner env.sha w.job settled with
      | none => exact h.1
      | some winner =>
          have hsome : (publicationWinner env.sha w.job settled).isSome := by rw [hwinner]; rfl
          exact (recordWinner_reaches h hrace hsome).mono (fun _ _ hr => hr.1.1) fun _ _ hr => hr

/-! ## Races along a chain -/

theorem race_setRace_of_ne {memory : ExportJob} {key : String} (h : race.key ≠ key)
    (job : ExportJob) :
    (setRace memory race job).race key = memory.race key := by
  have hfilter : (memory.publicationRaces.filter fun r => r.key != race.key).find? (·.key == key) =
      memory.publicationRaces.find? (·.key == key) := by
    rw [List.find?_filter]
    congr 1
    funext r
    by_cases hr : r.key = key
    · simp [hr, Ne.symm h]
    · simp [hr]
  simp only [ExportJob.race, setRace, withRace, List.find?_append, hfilter]
  simp [h]

/-- A kind of race that the changes of a chain do not leave. -/
structure Lasting (env : Env) (kind : ExportPublicationRace → Prop) : Prop where
  absent : ∀ race uploadId abortAcknowledged, kind race →
    kind (markAbsent uploadId abortAcknowledged race)
  verified : ∀ job race, (publicationWinner env.sha job race).isSome → kind race →
    kind { race with state := .verified }

section
variable {kind : ExportPublicationRace → Prop} {key : String}

theorem hasRace_setRace {memory job : ExportJob} {race next : ExportPublicationRace}
    (hrace : memory.race race.key = some race) (hkey : next.key = race.key)
    (hnext : kind race → kind next) (h : memory.HasRace key kind) :
    (setRace memory next job).HasRace key kind := by
  obtain ⟨held, hheld, hkind⟩ := h
  by_cases hsame : race.key = key
  · obtain rfl := hsame
    rw [hrace] at hheld
    obtain rfl := Option.some.inj hheld
    refine ⟨next, ?_, hnext hkind⟩
    rw [← hkey]
    exact race_setRace memory job next
  · refine ⟨held, ?_, hkind⟩
    rw [race_setRace_of_ne (by rw [hkey]; exact hsame)]
    exact hheld

theorem Change.hasRace {fields : ExportJob → ExportJob} (hlasting : Lasting env kind)
    (h : Change env w fields) (hmemory : w.job.HasRace key kind) {job : ExportJob}
    (hjob : job.HasRace key kind) : (fields job).HasRace key kind := by
  cases h with
  | uploadAbsent uploadId abortAcknowledged hrace =>
      exact hasRace_setRace hrace rfl (hlasting.absent _ uploadId abortAcknowledged) hmemory
  | verified hrace hwinner =>
      exact hasRace_setRace hrace rfl (hlasting.verified _ _ hwinner) hmemory
  | acknowledged hrace hwinner => exact hjob
  | proved hrace hwinner hkey => exact hjob
  | cleaned howned hobjects =>
      obtain ⟨race, hrace, hkind⟩ := hjob
      have hsame : (fields job).owned.race key = job.owned.race key := by rw [howned]
      exact ⟨race, hsame.trans hrace, hkind⟩

theorem Step.hasRace (hlasting : Lasting env kind) (hstep : Step env w w')
    (h : w.job.HasRace key kind ∧ w.record.HasRace key kind) :
    w'.job.HasRace key kind ∧ w'.record.HasRace key kind := by
  obtain ⟨hmemory, hrecord⟩ := h
  cases hstep with
  | ask response hallowed => exact ⟨hmemory, hrecord⟩
  | wrote hchange =>
      refine ⟨hchange.hasRace hlasting hmemory hmemory, ?_⟩
      unfold World.wrote
      cases env.assigns with
      | true => exact hchange.hasRace hlasting hmemory hmemory
      | false => exact hchange.hasRace hlasting hmemory hrecord
  | lost hchange =>
      refine ⟨?_, hrecord⟩
      unfold World.lost
      cases env.assigns with
      | true => exact hchange.hasRace hlasting hmemory hmemory
      | false => exact hmemory
  | noted hchange => exact ⟨hchange.hasRace hlasting hmemory hmemory, hrecord⟩

theorem Runs.hasRace (hlasting : Lasting env kind) (hruns : Runs env w w')
    (h : w.job.HasRace key kind ∧ w.record.HasRace key kind) :
    w'.job.HasRace key kind ∧ w'.record.HasRace key kind := by
  induction hruns with
  | refl => exact h
  | tail _ hstep ih => exact hstep.hasRace hlasting ih

end

theorem lasting_unwon (env : Env) : Lasting env ExportPublicationRace.Unwon where
  absent := fun _ _ _ h => h
  verified := by
    intro job race hwinner hunwon
    have hstate := judgeable_state (publicationCandidate_isSome (candidate_of_winner hwinner)).1
    rcases hunwon with h | h <;> rw [h] at hstate <;> simp at hstate

/-- The attempt without the flags that its upload gets after the race. -/
def ExportPublicationAttempt.unflagged (a : ExportPublicationAttempt) : ExportPublicationAttempt :=
  { a with uploadAbsent := none, abortAcknowledged := none }

/-- The race has these receipts. -/
def Journaled (receipts : List ExportPublicationAttempt) (protocol : Option Protocol)
    (race : ExportPublicationRace) : Prop :=
  race.attempts.map (·.unflagged) = receipts ∧ race.protocol = protocol

theorem lasting_journaled (env : Env) (receipts : List ExportPublicationAttempt)
    (protocol : Option Protocol) :
    Lasting env (Journaled receipts protocol) where
  absent := by
    rintro race uploadId abortAcknowledged ⟨hreceipts, hprotocol⟩
    refine ⟨?_, hprotocol⟩
    rw [← hreceipts, markAbsent, List.map_map]
    refine List.map_congr_left fun a _ => ?_
    simp only [Function.comp_apply]
    split <;> rfl
  verified := fun _ _ _ h => h

/-! ## No proof for a race that is not won -/

/-- The proofs of the key. -/
def ExportJob.proofsFor (job : ExportJob) (key : String) : List OwnedObject :=
  job.ownedObjects.filter (·.key == key)

theorem Change.proofsFor {key : String} {fields : ExportJob → ExportJob} (h : Change env w fields)
    (hunwon : w.job.HasRace key ExportPublicationRace.Unwon)
    (hmemory : w.job.proofsFor key = proofs) {job : ExportJob} (hjob : job.proofsFor key = proofs) :
    (fields job).proofsFor key = proofs := by
  cases h with
  | uploadAbsent uploadId abortAcknowledged hrace => exact hjob
  | verified hrace hwinner => exact hjob
  | acknowledged hrace hwinner => exact hjob
  | @proved race proof hrace hwinner hkey =>
      -- the proof is one of another key: this one's race has no winner
      obtain ⟨held, hheld, hstate⟩ := hunwon
      have hne : proof.key ≠ key := by
        intro hsame
        rw [← hsame, hkey, hrace] at hheld
        obtain rfl := Option.some.inj hheld
        have hwon := judgeable_state (publicationCandidate_isSome (candidate_of_winner hwinner)).1
        rcases hstate with h | h <;> rw [h] at hwon <;> simp at hwon
      rw [← hmemory]
      change List.filter _ (List.filter _ _ ++ [proof]) = _
      rw [List.filter_append, List.filter_filter]
      have hlast : [proof].filter (·.key == key) = [] := by simp [hne]
      rw [hlast, List.append_nil, ExportJob.proofsFor]
      refine List.filter_congr fun p _ => ?_
      by_cases hp : p.key = key
      · simp [hp, Ne.symm hne]
      · simp [hp]
  | cleaned howned hobjects =>
      have hsame : (fields job).owned.proofsFor key = job.owned.proofsFor key := by rw [howned]
      exact hsame.trans hjob

/-- The race of the key is not won, and these are the proofs of the key. -/
structure Unproved (key : String) (proofs : List OwnedObject) (w : World) : Prop where
  races : w.job.HasRace key ExportPublicationRace.Unwon ∧
    w.record.HasRace key ExportPublicationRace.Unwon
  memory : w.job.proofsFor key = proofs
  durable : w.record.proofsFor key = proofs

theorem Step.unproved {key : String} (hstep : Step env w w') (h : Unproved key proofs w) :
    Unproved key proofs w' := by
  have hraces := hstep.hasRace (lasting_unwon env) h.races
  cases hstep with
  | ask response hallowed => exact ⟨hraces, h.memory, h.durable⟩
  | wrote hchange =>
      refine ⟨hraces, hchange.proofsFor h.races.1 h.memory h.memory, ?_⟩
      unfold World.wrote
      cases env.assigns with
      | true => exact hchange.proofsFor h.races.1 h.memory h.memory
      | false => exact hchange.proofsFor h.races.1 h.memory h.durable
  | lost hchange =>
      refine ⟨hraces, ?_, h.durable⟩
      unfold World.lost
      cases env.assigns with
      | true => exact hchange.proofsFor h.races.1 h.memory h.memory
      | false => exact h.memory
  | noted hchange => exact ⟨hraces, hchange.proofsFor h.races.1 h.memory h.memory, h.durable⟩

theorem Runs.unproved {key : String} (hruns : Runs env w w') (h : Unproved key proofs w) :
    Unproved key proofs w' := by
  induction hruns with
  | refl => exact h
  | tail _ hstep ih => exact hstep.unproved ih

/-- The record that a series of cleanups leaves, each against a provider
and a journal of its own. -/
def cleanups (record : ExportJob) (later : List Env) : ExportJob :=
  later.foldl (fun record env => ((cleanup env).after (World.start record)).record) record

theorem cleanups_unproved {record : ExportJob} {key : String} (later : List Env)
    (hrace : record.HasRace key ExportPublicationRace.Unwon)
    (hproofs : record.proofsFor key = proofs) :
    (cleanups record later).proofsFor key = proofs := by
  induction later generalizing record with
  | nil => exact hproofs
  | cons env later ih =>
      have hend : Unproved key proofs ((cleanup env).after (World.start record)) :=
        (cleanup_runs env record).unproved ⟨⟨hrace, hrace⟩, hproofs, hproofs⟩
      exact ih hend.races.2 hend.durable

/-! ## What a verdict says -/

/-- A competitor that was refused because another one was first. -/
def Conflict (protocol : Option Protocol) (a : ExportPublicationAttempt) : Prop :=
  a.outcome = .rejected ∧
    (a.httpStatus = some 409 ∧ a.response = some .providerError ∨
      protocol = some .hcpFinalErrorV1 ∧ finalConflict a = true)

/-- Exactly one competitor was acknowledged, with a valid answer; the others were refused. -/
def SingleWinner (protocol : Option Protocol) (attempts : List ExportPublicationAttempt) : Prop :=
  ∃ before winner after, attempts = before ++ winner :: after ∧ winner.outcome = .acknowledged ∧
    winner.validResponse = some true ∧ ∀ a ∈ before ++ after, Conflict protocol a

theorem conflict_of_rejectedConflict (h : rejectedConflict protocol a = true) :
    Conflict protocol a := by
  simp only [rejectedConflict, Bool.and_eq_true, beq_iff_eq] at h
  exact ⟨h.1.1.1.1, .inl ⟨h.1.1.1.2, h.1.1.2⟩⟩

theorem conflict_of_finalConflict (hprotocol : protocol = some .hcpFinalErrorV1)
    (h : finalConflict a = true) :
    Conflict protocol a := by
  refine ⟨?_, .inr ⟨hprotocol, h⟩⟩
  simp only [finalConflict, Bool.and_eq_true, beq_iff_eq] at h
  exact h.1.1.1.1.1.1.1.1.2

/-- Where one element alone has a property, the elements around it have it not. -/
theorem not_of_filter_singleton {α : Type} {p : α → Bool} {before after : List α} {x a : α}
    (h : (before ++ x :: after).filter p = [x]) (hx : p x = true) (ha : a ∈ before ++ after) :
    p a = false := by
  rw [List.filter_append, List.filter_cons_of_pos hx] at h
  have hlength := congrArg List.length h
  simp only [List.length_append, List.length_cons, List.length_nil] at hlength
  have hbefore : before.filter p = [] := List.length_eq_zero_iff.mp (by omega)
  have hafter : after.filter p = [] := List.length_eq_zero_iff.mp (by omega)
  rw [List.filter_eq_nil_iff] at hbefore hafter
  rcases List.mem_append.mp ha with hmem | hmem
  · simpa using hbefore a hmem
  · simpa using hafter a hmem

theorem publicationVerdict_singleWinner (h : publicationVerdict attempts protocol = .singleWinner) :
    SingleWinner protocol attempts := by
  unfold publicationVerdict at h
  split at h
  · cases h
  · split at h
    · cases h
    · dsimp only at h
      split at h
      · rename_i winner hfilter
        split at h
        · rename_i hall
          simp only [Bool.and_eq_true] at hall
          have hmem : winner ∈ attempts.filter fun a => a.outcome == .acknowledged := by
            rw [hfilter]
            exact List.mem_singleton.mpr rfl
          obtain ⟨hwinner, houtcome⟩ := List.mem_filter.mp hmem
          obtain ⟨before, after, rfl⟩ := List.append_of_mem hwinner
          refine ⟨before, winner, after, rfl, by simpa using houtcome,
            by simpa using hall.1.1.1, ?_⟩
          intro a ha
          have hother := not_of_filter_singleton hfilter houtcome ha
          have ha' : a ∈ before ++ winner :: after := by
            rw [List.mem_append, List.mem_cons]
            exact (List.mem_append.mp ha).imp_right .inr
          have hjudged := List.all_eq_true.mp hall.2 a ha'
          simp only [Bool.or_eq_true, Bool.and_eq_true, beq_iff_eq] at hjudged
          rcases hjudged with (rfl | hrejected) | ⟨hsemantic, hfinal⟩
          · rw [houtcome] at hother
            cases hother
          · exact conflict_of_rejectedConflict hrejected
          · exact conflict_of_finalConflict hsemantic.1 hfinal
        · cases h
      · cases h

theorem publicationVerdict_ne_verified (attempts : List ExportPublicationAttempt)
    (protocol : Option Protocol) :
    publicationVerdict attempts protocol ≠ .verified := by
  unfold publicationVerdict
  dsimp only
  intro h
  split at h
  · cases h
  · split at h
    · cases h
    · split at h
      · split at h <;> cases h
      · cases h

theorem SingleWinner.unflagged (h : SingleWinner protocol attempts) :
    SingleWinner protocol (attempts.map (·.unflagged)) := by
  obtain ⟨before, winner, after, rfl, houtcome, hvalid, hothers⟩ := h
  refine ⟨before.map (·.unflagged), winner.unflagged, after.map (·.unflagged), by simp,
    houtcome, hvalid, ?_⟩
  rw [← List.map_append, List.forall_mem_map]
  exact hothers

theorem SingleWinner.of_unflagged (h : SingleWinner protocol (attempts.map (·.unflagged))) :
    SingleWinner protocol attempts := by
  obtain ⟨before, winner, after, heq, houtcome, hvalid, hothers⟩ := h
  obtain ⟨before', rest, rfl, rfl, hrest⟩ := List.map_eq_append_iff.mp heq
  obtain ⟨winner', after', rfl, rfl, rfl⟩ := List.map_eq_cons_iff.mp hrest
  refine ⟨before', winner', after', rfl, houtcome, hvalid, fun a ha => ?_⟩
  refine hothers a.unflagged ?_
  rw [← List.map_append]
  exact List.mem_map_of_mem ha

/-! ## The end of the call -/

/-- How the call ends after the competitors have settled in the state `w`. -/
inductive Concluded (env : Env) (w : World) (verdict : RaceState) (failed : Bool) (w' : World) :
    Prop
  /-- a receipt was lost: the record stays as it is -/
  | lost (hfailed : failed = true) (hrecord : w'.record = w.record)
      (hproofs : w'.job.ownedObjects = w.job.ownedObjects)
  /-- nobody won: nothing changes -/
  | refused (hfailed : failed = false) (hsame : w' = w)
  /-- somebody won: the rest is a chain of steps -/
  | won (hfailed : failed = false) (hverdict : verdict = .singleWinner) (hruns : Runs env w w')

theorem concludeRace_concluded {failed : Bool} (h : Settling env job race replies order failed w) :
    wp (concludeRace env race.key failed)
      (fun _ => Concluded env w (judged env job race replies order).state failed)
      (fun _ => Concluded env w (judged env job race replies order).state failed) w := by
  obtain ⟨current, receipts, hjob, hkey⟩ := h.memory
  unfold concludeRace
  rw [wp_bind, wp_currentJob]
  have hrace : w.job.race race.key = some current := by
    rw [hjob, ← hkey]
    exact race_settling
  rw [hrace]
  cases failed with
  | true => exact .lost rfl rfl rfl
  | false =>
      obtain ⟨hrecord, hclean⟩ := h.clean rfl
      have hcurrent : current = judged env job race replies order :=
        settling_inj hkey.symm (hjob.symm.trans hclean)
      dsimp only
      rw [if_neg Bool.false_ne_true, wp_ite]
      refine ⟨fun _ => .refused rfl rfl, fun hcandidate => ?_⟩
      have hsome : (publicationCandidate env.sha w.job current).isSome := by
        simpa [Option.isSome_iff_ne_none] using hcandidate
      have hverdict : (judged env job race replies order).state = .singleWinner := by
        have hj := (publicationCandidate_isSome hsome).1
        simp only [judgeable, Bool.and_eq_true, beq_iff_eq] at hj
        rw [hcurrent] at hj
        exact hj.2
      have h₀ : Reaches env w w := ⟨.refl, by rw [World.Agrees, hrecord]⟩
      rw [wp_ite]
      constructor
      · intro _
        refine EStateM.wp.bind ((settleRaceUploads_reaches h₀).mono (fun _ _ hr => hr)
          fun _ _ hr => .won rfl hverdict hr) fun _ w₁ h₁ => ?_
        exact (proveWinner_runs h₁).mono (fun _ _ hr => .won rfl hverdict hr)
          fun _ _ hr => .won rfl hverdict hr
      · intro _
        exact (proveWinner_runs h₀).mono (fun _ _ hr => .won rfl hverdict hr)
          fun _ _ hr => .won rfl hverdict hr

/-! ## The whole call -/

/-- Every competitor's receipt is journaled, and they show one winner. -/
def Won (env : Env) (job : ExportJob) (bodies : Bodies) (includePut : Bool) (replies : Nat → Reply)
    (race : ExportPublicationRace) : Prop :=
  (∃ a b, race.attempts.map (·.unflagged) =
    (raceAttempts env bodies includePut a b).mapIdx fun i =>
      receipt env job (raceKey job includePut) (replies i)) ∧
    SingleWinner race.protocol race.attempts

/-- How many competitors a race has. -/
def competitorCount (includePut : Bool) : Nat := if includePut then 3 else 2

theorem unflagged_receipt {key : String} {reply : Reply} :
    (receipt env job key reply a).unflagged = receipt env job key reply a.unflagged := by
  cases reply with
  | ok result => rfl
  | error error => rfl

/-- The receipts of a race are the same in whatever order they come. -/
theorem journaled_receipts {key : String} {a b : String}
    (horder : order.Perm (List.range (competitorCount includePut))) (uploads : List OwnedUpload) :
    (withReceipts env (setUploads uploads job) key replies order
        (raceAttempts env bodies includePut a b)).map (·.unflagged) =
      (raceAttempts env bodies includePut a b).mapIdx fun i => receipt env job key (replies i) := by
  rw [withReceipts_perm horder]
  have hcongr (reply : Reply) :
      receipt env (setUploads uploads job) key reply = receipt env job key reply :=
    receipt_congr rfl key reply
  unfold withReceipts
  simp only [hcongr]
  cases includePut with
  | true => exact congrArg₂ List.cons unflagged_receipt (congrArg₂ List.cons unflagged_receipt
      (congrArg₂ List.cons unflagged_receipt rfl))
  | false => exact congrArg₂ List.cons unflagged_receipt (congrArg₂ List.cons unflagged_receipt rfl)

theorem won_of_journaled {a b : String} {uploads : List OwnedUpload}
    (horder : order.Perm (List.range (competitorCount includePut)))
    (hverdict : (judged env (setUploads uploads job)
      (openedRace env job bodies includePut a b) replies
      order).state = .singleWinner)
    (hrace : Journaled ((judged env (setUploads uploads job)
      (openedRace env job bodies includePut a b) replies
      order).attempts.map (·.unflagged)) (openedRace env job bodies includePut a b).protocol race) :
    Won env job bodies includePut replies race := by
  have hwinner := (publicationVerdict_singleWinner hverdict).unflagged
  refine ⟨⟨a, b, hrace.1.trans (journaled_receipts horder uploads)⟩, ?_⟩
  rw [hrace.2]
  refine SingleWinner.of_unflagged ?_
  rw [hrace.1]
  exact hwinner

/-- What the record shows when the call has ended. -/
structure RaceEnd (env : Env) (job : ExportJob) (bodies : Bodies) (includePut : Bool)
    (replies : Nat → Reply) (order : List Nat) (w' : World) : Prop where
  /-- a race that counts as won was won, or it was there before and this call journaled none -/
  verdict : ∀ race, w'.record.race (raceKey job includePut) = some race →
    race.state = .singleWinner ∨ race.state = .verified →
      Won env job bodies includePut replies race ∨
        (job.race (raceKey job includePut) = some race ∧
          ∃ e w, openRace env bodies includePut (World.start job) = .error e w)
  /-- after a lost receipt there is no winner and no new proof -/
  lost : ∀ opened j, openRace env bodies includePut (World.start job) = .ok () opened →
    j < order.length → env.commits (opened.writes + j) = false →
      w'.record.HasRace (raceKey job includePut) ExportPublicationRace.Unwon ∧
        w'.job.ownedObjects = job.ownedObjects ∧ w'.record.ownedObjects = job.ownedObjects

theorem raceEnd_of_concluded {a b : String} {uploads : List OwnedUpload} {failed : Bool}
    {opened : World} (horder : order.Perm (List.range (competitorCount includePut)))
    (hopened : openRace env bodies includePut (World.start job) = .ok () opened)
    (h : Settling env (setUploads uploads job)
      (openedRace env job bodies includePut a b) replies order failed w)
    (hfailed : failed = false → ∀ j < order.length, env.commits (opened.writes + j) = true)
    (hconcluded : Concluded env w
      (judged env (setUploads uploads job)
        (openedRace env job bodies includePut a b) replies order).state
      failed w') : RaceEnd env job bodies includePut replies order w' := by
  -- without a failed upload no write was lost
  have hkept (hf : failed = false) (P : Prop) : ∀ opened' j,
      openRace env bodies includePut (World.start job) = .ok () opened' → j < order.length →
        env.commits (opened'.writes + j) = false → P := by
    intro opened' j hopened' hj hcommit
    obtain rfl : opened = opened' := by
      rw [hopened] at hopened'
      exact (EStateM.Result.ok.inj hopened').2
    rw [hfailed hf j hj] at hcommit
    cases hcommit
  cases hconcluded with
  | lost hf hrecord hproofs =>
      obtain ⟨held, hheld, hunwon⟩ := h.lost hf
      refine ⟨fun race hrace hstate => ?_, fun opened' j _ _ _ => ?_⟩
      · have heq : race = held := by
          rw [hrecord] at hrace
          exact Option.some.inj (hrace.symm.trans hheld)
        rcases hunwon with h | h <;> rw [heq, h] at hstate <;> simp at hstate
      · obtain ⟨current, receipts, hjob, -⟩ := h.memory
        rw [hrecord, hproofs, hjob]
        exact ⟨⟨held, hheld, hunwon⟩, rfl, h.proofs⟩
  | refused hf hsame =>
      subst hsame
      refine ⟨fun race hrace hstate => .inl ?_, hkept hf _⟩
      obtain ⟨hrecord, hjob⟩ := h.clean hf
      have heq : judged env (setUploads uploads job)
          (openedRace env job bodies includePut a b) replies order =
          race := by
        rw [hrecord, hjob] at hrace
        exact Option.some.inj (race_settling.symm.trans hrace)
      refine won_of_journaled horder ?_ ⟨by rw [heq], by rw [← heq]; rfl⟩
      rw [heq]
      refine hstate.resolve_right fun hverified => ?_
      rw [← heq] at hverified
      exact publicationVerdict_ne_verified _ _ hverified
  | won hf hverdict hruns =>
      refine ⟨fun race hrace _ => .inl ?_, hkept hf _⟩
      obtain ⟨hrecord, hjob⟩ := h.clean hf
      have hstart : w.job.HasRace (raceKey job includePut) (Journaled
          ((judged env (setUploads uploads job) (openedRace env job bodies includePut a b) replies
            order).attempts.map (·.unflagged))
              (openedRace env job bodies includePut a b).protocol) := by
        rw [hjob]
        exact ⟨_, race_settling, rfl, rfl⟩
      obtain ⟨held, hheld, hkind⟩ :=
        (hruns.hasRace (lasting_journaled env _ _) ⟨hstart, by rw [hrecord]; exact hstart⟩).2
      obtain rfl := Option.some.inj (hheld.symm.trans hrace)
      exact won_of_journaled horder hverdict hkind

theorem publicationRace_end (horder : order.Perm (List.range (competitorCount includePut))) :
    RaceEnd env job bodies includePut replies order
      ((publicationRace env bodies includePut replies order).after (World.start job)) := by
  refine wp_iff_after.mp (?_ : wp (publicationRace env bodies includePut replies order)
    (fun _ => RaceEnd env job bodies includePut replies order)
    (fun _ => RaceEnd env job bodies includePut replies order) (World.start job))
  unfold publicationRace
  rw [wp_bind, wp_currentJob]
  refine ((openRace_spec env job bodies includePut).result.mono (fun _ _ h => h) ?_).bind ?_
  · rintro e w' ⟨herror, uploads, hrecord⟩
    refine ⟨fun race hrace _ => .inr ⟨?_, e, w', herror⟩, fun opened j hopened => ?_⟩
    · rw [hrecord] at hrace
      exact hrace
    · rw [herror] at hopened
      cases hopened
  · rintro _ opened ⟨hopened, uploads, a, b, hsame, hjob, hlength⟩
    have hnodup : ([] ++ order).Nodup := by simpa using horder.nodup_iff.mpr List.nodup_range
    have hpending : ∀ i ∈ order, ∃ attempt,
        (openedRace env job bodies includePut a b).attempts[i]? = some attempt ∧
        attempt.outcome = .pending :=
      fun i hi => outcome_raceAttempts (List.mem_range.mp (horder.mem_iff.mp hi))
    have hlength' : (withRace (openedRace env job bodies includePut a b)
        (setUploads uploads job).publicationRaces).length ≤ 2 := hlength
    refine (settleAll_settling hlength' hnodup hpending (settling_opened hsame hjob)).bind ?_
    rintro failed w₂ ⟨h₂, -, -, hfailed⟩
    rw [List.nil_append] at h₂
    refine (concludeRace_concluded h₂).mono ?_ ?_
    · exact fun _ _ hc => raceEnd_of_concluded horder hopened h₂ (fun hf => (hfailed.mp hf).2) hc
    · exact fun _ _ hc => raceEnd_of_concluded horder hopened h₂ (fun hf => (hfailed.mp hf).2) hc

theorem publicationRace_perm {order order' : List Nat}
    (horder : order.Perm (List.range (competitorCount includePut))) (horder' : order'.Perm order)
    (hcommits : ∀ n, env.commits n = true) :
    publicationRace env bodies includePut replies order' (World.start job) =
      publicationRace env bodies includePut replies order (World.start job) := by
  have hrun (order : List Nat) :
      publicationRace env bodies includePut replies order (World.start job) =
      (openRace env bodies includePut >>= fun _ =>
        settleAll env (raceKey job includePut) replies order false >>=
        concludeRace env (raceKey job includePut)) (World.start job) := by
    have hcurrent : currentJob (World.start job) = .ok job (World.start job) := rfl
    unfold publicationRace
    simp only [bind, EStateM.bind, hcurrent]
  rw [hrun, hrun]
  simp only [bind, EStateM.bind]
  have hspec := openRace_spec env job bodies includePut
  unfold wp at hspec
  cases hopened : openRace env bodies includePut (World.start job) with
  | error e w => rfl
  | ok _ opened =>
      rw [hopened] at hspec
      obtain ⟨uploads, a, b, hsame, hjob, hlength⟩ := hspec
      have hnodup : order'.Nodup := (horder'.trans horder).nodup_iff.mpr List.nodup_range
      have hpending : ∀ i ∈ order', ∃ attempt,
          (openedRace env job bodies includePut a b).attempts[i]? = some attempt ∧
          attempt.outcome = .pending :=
        fun i hi => outcome_raceAttempts (List.mem_range.mp ((horder'.trans horder).mem_iff.mp hi))
      have hlength' : (withRace (openedRace env job bodies includePut a b)
          (setUploads uploads job).publicationRaces).length ≤ 2 := hlength
      have hsettled : settleAll env (raceKey job includePut) replies order' false opened =
          settleAll env (raceKey job includePut) replies order false opened :=
        settleAll_perm hlength' hnodup hpending (settling_opened hsame hjob) horder' hcommits
      simp only [hsettled]

/-- For every provider, every answer to each competitor, every order in which they settle
and every loss of journal writes: the record calls the race won only if every receipt is
journaled and shows one winner (or the call journaled no race and an older one is still
there); without a loss the order makes no difference; and after a lost receipt neither this
call nor any later cleanup from the record writes a proof for the key. -/
theorem publication_race_verdict (env : Env) (job : ExportJob) (bodies : Bodies) (includePut : Bool)
    (replies : Nat → Reply) (order : List Nat)
    (horder : order.Perm (List.range (competitorCount includePut))) :
    (∀ race, ((publicationRace env bodies includePut replies order).after
          (World.start job)).record.race (raceKey job includePut) = some race →
        race.state = .singleWinner ∨ race.state = .verified →
        Won env job bodies includePut replies race ∨
          (job.race (raceKey job includePut) = some race ∧
            ∃ e w, openRace env bodies includePut (World.start job) = .error e w)) ∧
    (∀ order', order'.Perm order → (∀ n, env.commits n = true) →
      publicationRace env bodies includePut replies order' (World.start job) =
        publicationRace env bodies includePut replies order (World.start job)) ∧
    (∀ opened j, openRace env bodies includePut (World.start job) = .ok () opened →
      j < order.length → env.commits (opened.writes + j) = false →
        ((publicationRace env bodies includePut replies order).after
          (World.start job)).job.ownedObjects = job.ownedObjects ∧
        ((publicationRace env bodies includePut replies order).after
          (World.start job)).record.ownedObjects = job.ownedObjects ∧
        ∀ later, (cleanups ((publicationRace env bodies includePut replies order).after
            (World.start job)).record later).proofsFor (raceKey job includePut) =
          job.proofsFor (raceKey job includePut)) := by
  have hend : RaceEnd env job bodies includePut replies order _ := publicationRace_end horder
  refine ⟨hend.verdict, fun order' horder' hcommits => publicationRace_perm horder horder' hcommits,
    ?_⟩
  intro opened j hopened hj hcommit
  obtain ⟨hunwon, hmemory, hrecord⟩ := hend.lost opened j hopened hj hcommit
  refine ⟨hmemory, hrecord, fun later => cleanups_unproved later hunwon ?_⟩
  rw [ExportJob.proofsFor, hrecord, ExportJob.proofsFor]

/-! ## A race of two uploads -/

/-- The digest of everything in the sample. -/
def sampleDigest : String := "aaaaaaaaaaaaaaaaaaaaaaaaaaaaaaaaaaaaaaaaaaaaaaaaaaaaaaaaaaaaaaaa"

/-- The sample job before it has raced. -/
def raceJob : ExportJob := { sampleJob with ownedObjects := [] }

def raceObject : Output :=
  { sampleObject with
    Metadata :=
      [("pluton-export-job", "00000000-0000-0000-0000-000000000000"),
        ("pluton-export-binding", sampleDigest), ("pluton-export-nonce", "nonce")] }

/-- The key is free, both uploads are taken, and then the winner's object is there. -/
def raceAnswers : List Response :=
  [sampleAbsent, .ok { UploadId := some "a" }, .ok { ETag := some "part" },
    .ok { UploadId := some "b" }, .ok { ETag := some "part" }, .ok raceObject,
    .ok raceObject, .ok raceObject]

/-- A journal that loses the writes named. -/
def raceEnv (losses : List Nat) : Env :=
  { sampleEnv with
    sha := fun _ => sampleDigest
    answer := fun n => (raceAnswers[n]?).getD sampleAbsent
    commits := fun n => !losses.contains n }

/-- The first upload is completed, the second is refused as a conflict. -/
def raceReplies : Nat → Reply
  | 0 => .ok
      { httpStatusCode := some 200, ETag := some "\"e\"", Bucket := some "bucket"
        Key := some "exports/00000000-0000-0000-0000-000000000000.tar.probe-race" }
  | _ => .error (.operation (.of .completeMultipartUpload (.provider { httpStatusCode := some 409 })
      .providerError .storageUnavailable .race))

/-- The race is open after three journal writes. -/
def writesThree : EStateM.Result Failure World Unit → Bool
  | .ok _ opened => opened.writes == 3
  | .error _ _ => false

theorem publication_race_verdict_of_two :
    (∃ race, ((publicationRace (raceEnv []) ⟨[1], [2], [3]⟩ false raceReplies [1, 0]).after
        (World.start raceJob)).record.race (raceKey raceJob false) = some race ∧
        race.state = .verified ∧
        Won (raceEnv []) raceJob ⟨[1], [2], [3]⟩ false raceReplies race) ∧
    publicationRace (raceEnv []) ⟨[1], [2], [3]⟩ false raceReplies [0, 1] (World.start raceJob) =
      publicationRace (raceEnv []) ⟨[1], [2], [3]⟩ false raceReplies [1, 0] (World.start raceJob) ∧
    ∀ later,
      (cleanups ((publicationRace (raceEnv [3]) ⟨[1], [2], [3]⟩ false raceReplies [1, 0]).after
      (World.start raceJob)).record later).proofsFor (raceKey raceJob false) = [] := by
  have horder : [1, 0].Perm (List.range (competitorCount false)) := by decide
  obtain ⟨hverdict, hperm, -⟩ :=
    publication_race_verdict (raceEnv []) raceJob ⟨[1], [2], [3]⟩ false raceReplies [1, 0] horder
  refine ⟨?_, hperm [0, 1] (by decide) fun _ => rfl, ?_⟩
  · have hverified : (((publicationRace (raceEnv []) ⟨[1], [2], [3]⟩ false raceReplies [1, 0]).after
        (World.start raceJob)).record.race (raceKey raceJob false)).any
        (·.state == .verified) = true := by
      decide +kernel
    obtain ⟨race, hrace, hstate⟩ := (Option.any_eq_true _ _).mp hverified
    have hstate' : race.state = .verified := by simpa using hstate
    refine ⟨race, hrace, hstate', (hverdict race hrace (.inr hstate')).resolve_right ?_⟩
    rintro ⟨hold, -⟩
    cases hold
  · intro later
    have hopened : writesThree
        (openRace (raceEnv [3]) ⟨[1], [2], [3]⟩ false (World.start raceJob)) = true := by
      decide +kernel
    cases hresult : openRace (raceEnv [3]) ⟨[1], [2], [3]⟩ false (World.start raceJob) with
    | error e w =>
        rw [hresult] at hopened
        cases hopened
    | ok _ opened =>
        rw [hresult] at hopened
        have hlost : (raceEnv [3]).commits (opened.writes + 0) = false := by
          rw [show opened.writes = 3 from beq_iff_eq.mp hopened]
          rfl
        exact ((publication_race_verdict (raceEnv [3]) raceJob
          ⟨[1], [2], [3]⟩ false raceReplies [1, 0]
          horder).2.2 opened 0 hresult (by decide) hlost).2.2 later

end Pluton.WriteOnce
