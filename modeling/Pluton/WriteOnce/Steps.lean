-- SUMMARY: What one request or journal write of the storage may be, and runs of them.
import Pluton.WriteOnce.Race
import Mathlib.Logic.Relation

/-!
# Steps of the storage

Every run of the cleanup, and of the end of a race, is a chain of steps: a request that
is allowed where it is sent, a journal write that commits or is lost, a note in memory.
`Allowed` and `Change` say what these may be; the invariants of a run are derived from
them and never from the operations again.
-/
namespace Pluton.WriteOnce

variable {env : Env} {w w' : World} {E : Failure → World → Prop} {request : Request}
  {fields : ExportJob → ExportJob} {Q : Output → World → Prop} {race : ExportPublicationRace}
  {job : ExportJob} {response : Response}

open EStateM

/-! ## The effects -/

/-- The job without the notes of its cleanup. -/
def ExportJob.owned (job : ExportJob) : ExportJob :=
  { job with cleanupState := none, cleanupFailure := none, lastCleanupFailure := none }

/-- The job in memory and its record differ in the notes of the cleanup at most. -/
def World.Agrees (w : World) : Prop := w.record.owned = w.job.owned

/-- A committed write. -/
def World.wrote (env : Env) (fields : ExportJob → ExportJob) (w : World) : World :=
  { w with
    job := fields w.job
    record := if env.assigns then fields w.job else fields w.record
    writes := w.writes + 1 }

/-- A write that threw. -/
def World.lost (env : Env) (fields : ExportJob → ExportJob) (w : World) : World :=
  { w with job := if env.assigns then fields w.job else w.job, writes := w.writes + 1 }

/-- A note in memory. -/
def World.noted (fields : ExportJob → ExportJob) (w : World) : World :=
  { w with job := fields w.job }

@[simp] theorem World.push_job :
    (w.push request response).job = w.job := rfl

@[simp] theorem World.push_record :
    (w.push request response).record = w.record := rfl

@[simp] theorem World.push_writes :
    (w.push request response).writes = w.writes := rfl

theorem World.Agrees.push (h : w.Agrees) (request : Request) (response : Response) :
    (w.push request response).Agrees := h

theorem World.Agrees.wrote (h : w.Agrees)
    (hf : ∀ job job' : ExportJob, job.owned = job'.owned →
      (fields job).owned = (fields job').owned) :
    (w.wrote env fields).Agrees := by
  unfold Agrees World.wrote
  cases env.assigns with
  | true => rfl
  | false => exact hf _ _ h

theorem wp_currentJob {Q : ExportJob → World → Prop} :
    wp currentJob Q E w ↔ Q w.job w := Iff.rfl

theorem wp_assign {Q : Unit → World → Prop} :
    wp (assign fields) Q E w ↔ Q () (w.noted fields) :=
  Iff.rfl

theorem wp_update {Q : Unit → World → Prop} :
    wp (update env fields) Q E w ↔
      (env.commits w.writes = true → Q () { w.wrote env fields with
        job := if env.assigns then fields w.job else w.job }) ∧
      (env.commits w.writes = false → E .journal (w.lost env fields)) := by
  unfold wp update World.wrote World.lost
  cases env.assigns <;> cases env.commits w.writes <;> simp

theorem wp_journal {Q : Unit → World → Prop} (fields : ExportJob → ExportJob)
    (hf : ∀ job, fields (fields job) = fields job) :
    wp (journal env fields) Q E w ↔
      (env.commits w.writes = true → Q () (w.wrote env fields)) ∧
      (env.commits w.writes = false → E .journal (w.lost env fields)) := by
  unfold journal
  rw [wp_bind, wp_update]
  simp only [wp_assign]
  refine and_congr_left fun _ => imp_congr_right fun _ => ?_
  have h : World.noted fields { w.wrote env fields with
      job := if env.assigns then fields w.job else w.job } = w.wrote env fields := by
    unfold World.noted World.wrote
    cases env.assigns <;> simp [hf]
  rw [h]

/-- `send`, with what its caller can learn of a failure: a 404 is the provider's. -/
theorem wp_send (hQ : ∀ output, Q output (w.push request (.ok output)))
    (hE : ∀ error e, (e.absent = true → error.exportHttpStatus = some 404) →
      E e (w.push request (.error error))) :
    wp (send env request) Q E w := by
  unfold wp send
  cases env.answer w.sent.length with
  | ok output => exact hQ output
  | error error =>
      refine hE error _ fun h => ?_
      simpa [Failure.absent, Failure.status, Failure.rawStatus, ExportOperationError.of] using h

theorem scope_eq_ok {key key' : String} (h : scope env job key = .ok key') :
    key' = key := by
  unfold scope at h
  split at h
  · exact (Except.ok.inj h).symm
  · cases h

theorem wp_scoped {key : String} (request : String → Request)
    (hQ : ∀ output, Q output (w.push (request key) (.ok output)))
    (hE : ∀ error e, (e.absent = true → error.exportHttpStatus = some 404) →
      E e (w.push (request key) (.error error)))
    (hscope : ∀ e, e.absent = false → E e w) :
    wp (do let key ← ofExcept (scope env job key); send env (request key)) Q E w := by
  rw [wp_bind, wp_ofExcept]
  constructor
  · intro key' hkey
    obtain rfl := scope_eq_ok hkey
    exact wp_send hQ hE
  · intro e he
    refine hscope e ?_
    unfold scope at he
    split at he
    · cases he
    · obtain rfl := Except.error.inj he
      rfl

/-! ## What a step may be -/

/-- A request that changes nothing at the provider. -/
def Request.reads : Request → Bool
  | .getBucketVersioning => true
  | .headObject _ _ => true
  | .getObject _ _ => true
  | .listParts _ _ => true
  | .listMultipartUploads _ => true
  | _ => false

/-- A HEAD of the proof's object, and the answer describes it. -/
def Exchange.Found (env : Env) (record : ExportJob) (proof : OwnedObject) (x : Exchange) : Prop :=
  x.request = .headObject proof.key (some proof.etag) ∧
    ∃ output, x.response = .ok output ∧ describes env record proof output = true

/-- A GET of the proof's object, with the bytes of the proof. -/
def Exchange.Read (env : Env) (record : ExportJob) (proof : OwnedObject) (x : Exchange) : Prop :=
  x.request = .getObject proof.key (some proof.etag) ∧
    ∃ output body, x.response = .ok output ∧ describes env record proof output = true ∧
      output.Body = some body ∧ body.breaks = false ∧
      body.chunks.flatten.length = proof.bytes ∧ env.sha body.chunks.flatten = proof.sha256

/-- The namespace was reported unversioned. -/
def Exchange.Unversioned (x : Exchange) : Prop :=
  x.request = .getBucketVersioning ∧ ∃ output, x.response = .ok output ∧ output.Status = none

/-- The last four requests were the readback of the proof's object, its head once more
and the state of the namespace, and all of them matched. -/
def Verified (env : Env) (record : ExportJob) (proof : OwnedObject) (log : List Exchange) : Prop :=
  ∃ before h g h' v, log = before ++ [h, g, h', v] ∧ h.Found env record proof ∧
    g.Read env record proof ∧ h'.Found env record proof ∧ v.Unversioned

/-- What must hold of the durable record and of the requests so far where a request is sent. -/
def Allowed (env : Env) (record : ExportJob) (log : List Exchange) : Request → Prop
  | .createMultipartUpload _ => False
  | .uploadPart _ _ _ _ => False
  | .abortMultipartUpload key uploadId => { key := key, uploadId := uploadId } ∈ record.ownedUploads
  | .deleteObject key _ =>
      key ∈ writeOnceKeys record ∧
        ∃ proof, record.proof key = some proof ∧ Verified env record proof log ∧
          ∀ race, record.race key = some race → (publicationWinner env.sha record race).isSome
  | _ => True

/-- The key answered 404. -/
def KeyAbsent (key : String) (log : List Exchange) : Prop :=
  ∃ x ∈ log, x.request = .headObject key none ∧
    ∃ error, x.response = .error error ∧ error.exportHttpStatus = some 404

/-- A listing that is not reported truncated names no upload of the job's keys. -/
def Exchange.ListedNone (job : ExportJob) (x : Exchange) : Prop :=
  x.request = .listMultipartUploads job.key ∧
    ∃ output, x.response = .ok output ∧ output.IsTruncated ≠ some true ∧
      remainingUpload job output = false

/-- Every key of the job answered 404, and after that a listing showed none of them. -/
def Emptied (job : ExportJob) (log : List Exchange) : Prop :=
  ∃ before x after, log = before ++ x :: after ∧ x.ListedNone job ∧
    ∀ key ∈ writeOnceKeys job, KeyAbsent key before

/-- `cleanupState.objects` is `verified-absent`. -/
def ExportJob.ObjectsAbsent (job : ExportJob) : Prop :=
  job.cleanupState.map (·.objects) = some .verifiedAbsent

/-- `saveRace` without an acknowledgement, as fields of a job. -/
def setRace (memory : ExportJob) (race : ExportPublicationRace) (job : ExportJob) : ExportJob :=
  { job with
    publicationRaces := withRace race memory.publicationRaces
    creationReceipts := memory.creationReceipts }

def setReceipts (receipts : List CreationReceipt) (job : ExportJob) : ExportJob :=
  { job with creationReceipts := receipts }

def setProofs (ownedObjects : List OwnedObject) (job : ExportJob) : ExportJob :=
  { job with ownedObjects := ownedObjects }

/-- What a journal write may change, with what the job in memory shows for it. -/
inductive Change (env : Env) (w : World) : (ExportJob → ExportJob) → Prop
  | uploadAbsent {race : ExportPublicationRace} (uploadId : String) (abortAcknowledged : Bool)
      (hrace : w.job.race race.key = some race) :
      Change env w (setRace w.job (markAbsent uploadId abortAcknowledged race))
  | verified {race : ExportPublicationRace} (hrace : w.job.race race.key = some race)
      (hwinner : (publicationWinner env.sha w.job race).isSome) :
      Change env w (setRace w.job { race with state := .verified })
  | acknowledged {race : ExportPublicationRace} (hrace : w.job.race race.key = some race)
      (hwinner : (publicationWinner env.sha w.job race).isSome) :
      Change env w (setReceipts (acknowledge race.key w.job.creationReceipts))
  | proved {race : ExportPublicationRace} {proof : OwnedObject}
      (hrace : w.job.race race.key = some race)
      (hwinner : (publicationWinner env.sha w.job race).isSome) (hkey : proof.key = race.key) :
      Change env w (setProofs (withProof proof w.job).ownedObjects)
  | cleaned {fields : ExportJob → ExportJob} (howned : ∀ job, (fields job).owned = job.owned)
      (hobjects : ∀ job, (fields job).ObjectsAbsent →
        job.ObjectsAbsent ∨ w.job.ObjectsAbsent ∨ Emptied w.job w.sent) :
      Change env w fields

inductive Step (env : Env) : World → World → Prop
  | ask {w : World} {request : Request} (response : Response)
      (h : Allowed env w.record w.sent request) : Step env w (w.push request response)
  | wrote {w : World} {fields : ExportJob → ExportJob} (h : Change env w fields) :
      Step env w (w.wrote env fields)
  | lost {w : World} {fields : ExportJob → ExportJob} (h : Change env w fields) :
      Step env w (w.lost env fields)
  | noted {w : World} {fields : ExportJob → ExportJob} (h : Change env w fields) :
      Step env w (w.noted fields)

/-- A chain of steps. -/
abbrev Runs (env : Env) : World → World → Prop := Relation.ReflTransGen (Step env)

theorem runs_read (h : request.reads = true) (response : Response) :
    Runs env w (w.push request response) := by
  refine .single (.ask response ?_)
  cases request with
  | createMultipartUpload => cases h
  | uploadPart => cases h
  | abortMultipartUpload => cases h
  | deleteObject => cases h
  | getBucketVersioning => trivial
  | headObject => trivial
  | getObject => trivial
  | listParts => trivial
  | listMultipartUploads => trivial

/-! ## Reading operations -/

theorem wp_orMismatch {operation : Operation} {key : String} {x : Prog Output} {P : World → Prop}
    (h : wp x Q (fun _ => P) w) :
    wp (orMismatch operation key x) Q (fun _ => P) w := by
  unfold orMismatch
  rw [wp_bind, wp_observe]
  refine h.mono (fun _ _ hq => hq) fun e w' hp => ?_
  change wp (if _ then _ else _) _ _ _
  rw [wp_ite]
  exact ⟨fun _ => hp, fun _ => hp⟩

theorem head_spec (job : ExportJob) (key : String) :
    wp (head env job key)
      (fun output w' => w' = w.push (.headObject key ((job.proof key).map (·.etag))) (.ok output) ∧
        matchesProof env job key output = true)
      (fun _ => Runs env w) w := by
  unfold head
  refine (wp_orMismatch (wp_scoped (Q := fun output w' =>
    w' = w.push (.headObject key ((job.proof key).map (·.etag))) (.ok output))
    (fun key => .headObject key ((job.proof key).map (·.etag))) (fun _ => rfl)
    (fun error _ _ => runs_read rfl _) fun _ _ => .refl)).bind ?_
  rintro output _ rfl
  rw [wp_bind, wp_refuseIf]
  exact ⟨fun _ => runs_read rfl _, fun h => ⟨rfl, by simpa using h⟩⟩

theorem get_spec (job : ExportJob) (key : String) :
    wp (get env job key)
      (fun r w' => job.proof key = some r.1 ∧
        w' = w.push (.getObject key (some r.1.etag)) (.ok r.2.1) ∧
        r.2.1.Body = some r.2.2 ∧ describes env job r.1 r.2.1 = true)
      (fun _ => Runs env w) w := by
  unfold get
  cases hproof : job.proof key with
  | none => exact .refl
  | some proof =>
      refine (wp_orMismatch (wp_scoped (Q := fun output w' =>
        w' = w.push (.getObject key (some proof.etag)) (.ok output))
        (fun key => .getObject key (some proof.etag)) (fun _ => rfl)
        (fun error _ _ => runs_read rfl _) fun _ _ => .refl)).bind ?_
      rintro output _ rfl
      cases hbody : output.Body with
      | none => exact runs_read rfl _
      | some body =>
          rw [wp_bind, wp_refuseIf]
          refine ⟨fun _ => runs_read rfl _, fun h => ⟨rfl, rfl, hbody, ?_⟩⟩
          simp only [Bool.or_eq_false_iff, Bool.not_eq_false', bne_eq_false_iff_eq] at h
          obtain ⟨⟨hmatch, hlength⟩, -⟩ := h
          rw [← hlength] at hmatch
          simp only [matchesProof, hproof, Option.any_some] at hmatch
          exact hmatch

theorem readBody_eq_some {limit : Nat} {read bytes : List UInt8} {chunks : List (List UInt8)}
    (h : readBody limit read chunks = some bytes) : bytes = read ++ chunks.flatten := by
  induction chunks generalizing read with
  | nil => simpa [readBody] using h.symm
  | cons chunk chunks ih =>
      rw [readBody] at h
      split at h
      · cases h
      · rw [ih h, List.flatten_cons, List.append_assoc]

/-- A readback asks for the head and for the bytes of the proof's object. -/
theorem readback_spec (job : ExportJob) (key : String) :
    wp (readback env job key)
      (fun _ w' => ∃ proof h g, job.proof key = some proof ∧
        w' = (w.push (.headObject key (some proof.etag)) (.ok h)).push
          (.getObject key (some proof.etag)) (.ok g) ∧
        describes env job proof h = true ∧ describes env job proof g = true ∧
        ∃ body, g.Body = some body ∧ body.breaks = false ∧
          body.chunks.flatten.length = proof.bytes ∧ env.sha body.chunks.flatten = proof.sha256)
      (fun _ => Runs env w) w := by
  unfold readback
  refine (head_spec job key).bind ?_
  rintro h _ ⟨rfl, hmatch⟩
  refine ((get_spec job key).mono (fun _ _ hq => hq) fun _ _ hp => Relation.ReflTransGen.trans
    (runs_read rfl _) hp).bind ?_
  rintro ⟨proof, g, body⟩ _ ⟨hproof, rfl, hbody, hdescribes⟩
  have hruns : Runs env w ((w.push (.headObject key ((job.proof key).map (·.etag))) (.ok h)).push
      (.getObject key (some proof.etag)) (.ok g)) := .trans (runs_read rfl _) (runs_read rfl _)
  dsimp only at hproof hbody hdescribes ⊢
  cases hread : readBody proof.bytes [] body.chunks with
  | none => simpa [hread] using hruns
  | some read =>
      obtain rfl : read = body.chunks.flatten := readBody_eq_some hread
      dsimp only
      rw [wp_bind, wp_refuseIf]
      refine ⟨fun _ => hruns, fun hbreaks => ?_⟩
      rw [wp_refuseIf]
      refine ⟨fun _ => hruns, fun hdigest => ?_⟩
      simp only [Bool.or_eq_false_iff, bne_eq_false_iff_eq] at hdigest
      simp only [matchesProof, hproof, Option.any_some] at hmatch
      simp only [hproof, Option.map_some]
      exact ⟨proof, h, g, rfl, rfl, hmatch, hdescribes, body, hbody, hbreaks, hdigest.1, hdigest.2⟩

theorem readback_runs (job : ExportJob) (key : String) :
    wp (readback env job key) (fun _ w' => Runs env w w' ∧ w'.job = w.job ∧ w'.record = w.record)
      (fun _ => Runs env w) w := by
  refine (readback_spec job key).mono ?_ fun _ _ h => h
  rintro _ _ ⟨proof, h, g, -, rfl, -⟩
  exact ⟨.trans (runs_read rfl _) (runs_read rfl _), rfl, rfl⟩

theorem absent_spec (job : ExportJob) (key : String) :
    wp (absent env job key)
      (fun _ w' => ∃ error, w' = w.push (.headObject key none) (.error error) ∧
        error.exportHttpStatus = some 404)
      (fun _ => Runs env w) w := by
  unfold absent
  rw [wp_bind, wp_observe]
  refine wp_scoped (fun key => .headObject key none) (fun output => ?_)
    (fun error e he => ?_) fun e he => ?_
  · exact runs_read rfl _
  · change wp (if _ then _ else _) _ _ _
    rw [wp_ite]
    exact ⟨fun h => ⟨error, rfl, he h⟩, fun _ => runs_read rfl _⟩
  · change wp (if _ then _ else _) _ _ _
    rw [wp_ite]
    exact ⟨fun h => absurd h (by simp [he]), fun _ => .refl⟩

theorem unversioned_spec :
    wp (unversioned env)
      (fun _ w' => ∃ output, w' = w.push .getBucketVersioning (.ok output) ∧ output.Status = none)
      (fun _ => Runs env w) w := by
  unfold unversioned
  rw [wp_bind]
  refine wp_send (fun output => ?_) fun error e _ => runs_read rfl _
  rw [wp_refuseIf]
  exact ⟨fun _ => runs_read rfl _, fun h => ⟨output, rfl, by simpa using h⟩⟩

theorem partsAbsent_spec (job : ExportJob) (key uploadId : String) (target : Target) :
    wp (partsAbsent env job key uploadId target)
      (fun _ w' => ∃ response, w' = w.push (.listParts key uploadId) response)
      (fun _ => Runs env w) w := by
  unfold partsAbsent
  rw [wp_bind, wp_observe]
  refine wp_scoped (fun key => .listParts key uploadId) (fun output => ?_)
    (fun error e he => ?_) fun e he => ?_
  · exact runs_read rfl _
  · change wp (if _ then _ else _) _ _ _
    rw [wp_ite]
    exact ⟨fun h => ⟨_, rfl⟩, fun _ => runs_read rfl _⟩
  · change wp (if _ then _ else _) _ _ _
    rw [wp_ite]
    exact ⟨fun h => absurd h (by simp [he]), fun _ => .refl⟩

theorem assertRaceUploadsAbsent_spec (race : ExportPublicationRace) :
    wp (assertRaceUploadsAbsent env race)
      (fun _ w' => ∃ response, w' = w.push (.listMultipartUploads race.key) response)
      (fun _ => Runs env w) w := by
  unfold assertRaceUploadsAbsent
  rw [wp_bind]
  refine wp_send (fun output => ?_) fun error e _ => runs_read rfl _
  rw [wp_bind, wp_refuseIf]
  refine ⟨fun _ => runs_read rfl _, fun _ => ?_⟩
  rw [wp_refuseIf]
  exact ⟨fun _ => runs_read rfl _, fun _ => ⟨_, rfl⟩⟩

/-! ## Writing operations -/

theorem abortUpload_spec {key uploadId : String}
    (hown : { key := key, uploadId := uploadId } ∈ w.record.ownedUploads) :
    wp (abortUpload env job key uploadId)
      (fun _ w' => ∃ response, w' = w.push (.abortMultipartUpload key uploadId) response)
      (fun _ => Runs env w) w := by
  have hruns (response : Response) :
      Runs env w (w.push (.abortMultipartUpload key uploadId) response) :=
    .single (.ask response hown)
  unfold abortUpload
  rw [wp_bind, wp_observe]
  refine wp_scoped (fun key => .abortMultipartUpload key uploadId) (fun output => ?_)
    (fun error e he => ?_) fun e he => ?_
  · exact ⟨_, rfl⟩
  · change wp (if _ then _ else _) _ _ _
    rw [wp_ite]
    exact ⟨fun h => ⟨_, rfl⟩, fun _ => hruns _⟩
  · change wp (if _ then _ else _) _ _ _
    rw [wp_ite]
    exact ⟨fun h => absurd h (by simp [he]), fun _ => .refl⟩

theorem saveRace_spec (h : Change env w (setRace w.job race)) :
    wp (saveRace env race) (fun _ w' => w' = w.wrote env (setRace w.job race))
      (fun _ => Runs env w) w := by
  unfold saveRace
  rw [wp_bind, wp_currentJob, wp_bind, wp_refuseIf]
  refine ⟨fun _ => .refl, fun _ => ?_⟩
  exact (wp_journal (setRace w.job race) fun _ => rfl).mpr ⟨fun _ => rfl,
    fun _ => .single (.lost h)⟩

theorem acknowledgedIn_acknowledge (key : String) (receipts : List CreationReceipt) :
    acknowledgedIn (acknowledge key receipts) key = true := by
  simp [acknowledgedIn, acknowledge]

theorem winner_setReceipts (h : (publicationWinner env.sha job race).isSome) :
    (publicationWinner env.sha
      (setReceipts (acknowledge race.key job.creationReceipts) job) race).isSome := by
  have hack := (publicationCandidate_isSome (candidate_of_winner h)).2
  have heq :
      publicationWinner env.sha (setReceipts (acknowledge race.key job.creationReceipts) job) race =
      publicationWinner env.sha job race :=
    publicationWinner_congr rfl
      ((acknowledgedIn_acknowledge race.key job.creationReceipts).trans hack.symm)
  rw [heq]
  exact h

/-- The job after its winner was recorded. -/
def recorded (race : ExportPublicationRace) (proof : OwnedObject) (job : ExportJob) : ExportJob :=
  withProof proof (setReceipts (acknowledge race.key job.creationReceipts) job)

theorem record_spec {etag : Option String} {status : Option Nat} {bytes : Nat} {digest : String}
    (hrace : w.job.race race.key = some race)
    (hwinner : (publicationWinner env.sha w.job race).isSome) (hagrees : w.Agrees) :
    wp (record env race.key etag status bytes digest)
      (fun _ w' => Runs env w w' ∧ w'.Agrees ∧
        ∃ proof, proof.key = race.key ∧ w'.job = recorded race proof w.job)
      (fun _ => Runs env w) w := by
  have hchange : Change env w (setReceipts (acknowledge race.key w.job.creationReceipts)) :=
    .acknowledged hrace hwinner
  unfold record
  rw [wp_bind, wp_currentJob, wp_bind]
  refine (wp_journal (setReceipts (acknowledge race.key w.job.creationReceipts))
    fun _ => rfl).mpr ⟨fun _ => ?_, fun _ => .single (.lost hchange)⟩
  -- the acknowledgement is written before the object is looked at
  obtain ⟨w₁, hw₁⟩ : ∃ w₁,
      w₁ = w.wrote env (setReceipts (acknowledge race.key w.job.creationReceipts)) :=
    ⟨_, rfl⟩
  have hruns₁ : Runs env w w₁ := hw₁ ▸ .single (.wrote hchange)
  have hagrees₁ : w₁.Agrees := hw₁ ▸ hagrees.wrote fun job job' h =>
    congrArg (setReceipts (acknowledge race.key w.job.creationReceipts)) h
  have hjob₁ : w₁.job = setReceipts (acknowledge race.key w.job.creationReceipts) w.job := by
    rw [hw₁]; rfl
  rw [← hw₁]
  rw [wp_bind, wp_refuseIf]
  refine ⟨fun _ => hruns₁, fun _ => ?_⟩
  rw [wp_bind, wp_refuseIf]
  refine ⟨fun _ => hruns₁, fun _ => ?_⟩
  rw [wp_bind, wp_currentJob, wp_bind]
  refine wp_scoped (fun key => .headObject key etag) (fun output => ?_)
    (fun error e he => hruns₁.trans (runs_read rfl _)) fun e he => hruns₁
  have hruns₂ : Runs env w (w₁.push (.headObject race.key etag) (.ok output)) :=
    hruns₁.trans (runs_read rfl _)
  cases headDetail env w₁.job etag bytes output with
  | some detail => exact hruns₂
  | none =>
      refine ((readback_runs _ _).mono (fun _ _ h => h) fun _ _ h => hruns₂.trans h).bind ?_
      rintro _ w₃ ⟨hruns₃, hjob₃, hrecord₃⟩
      have hjob : w₃.job = setReceipts (acknowledge race.key w.job.creationReceipts) w.job :=
        hjob₃.trans hjob₁
      have hagrees₃ : w₃.Agrees := by
        rw [World.Agrees, hjob₃, hrecord₃]
        exact hagrees₁
      rw [World.push_job] at hjob₃
      obtain ⟨proof, hproof⟩ : ∃ proof : OwnedObject, proof =
          { key := race.key, etag := etag.getD "", bytes := bytes, sha256 := digest
            created := (output.LastModified.bind Date.toISOString).getD "" } := ⟨_, rfl⟩
      rw [← hproof, ← hjob₃]
      -- what was read back proves the object
      have hproved : Change env w₃ (setProofs (withProof proof w₃.job).ownedObjects) := by
        have hrace₃ : w₃.job.race race.key = some race := by
          rw [hjob]
          exact hrace
        refine .proved hrace₃ ?_ (by rw [hproof])
        rw [hjob]
        exact winner_setReceipts hwinner
      refine (wp_journal (setProofs (withProof proof w₃.job).ownedObjects) fun _ => rfl).mpr
        ⟨fun _ => ⟨?_, ?_, proof, by rw [hproof], ?_⟩, fun _ => ?_⟩
      · exact hruns₂.trans (hruns₃.trans (.single (.wrote hproved)))
      · exact hagrees₃.wrote fun job job' h =>
          congrArg (setProofs (withProof proof w₃.job).ownedObjects) h
      · change setProofs (withProof proof w₃.job).ownedObjects w₃.job = _
        rw [hjob]
        rfl
      · exact hruns₂.trans (hruns₃.trans (.single (.lost hproved)))

end Pluton.WriteOnce
