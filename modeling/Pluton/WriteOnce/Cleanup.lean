-- SUMMARY: The cleanup as a chain of steps, and what it may delete.
import Pluton.WriteOnce.Steps

/-!
# What the cleanup deletes

The cleanup is shown once to be a chain of allowed steps (`cleanup_runs`); that it
deletes nothing foreign, aborts only its own uploads and calls the namespace empty only
when it saw it empty is then an induction over the chain.
-/
namespace Pluton.WriteOnce

variable {env : Env} {w w' w₀ : World} {fields : ExportJob → ExportJob} {job : ExportJob}
  {key : String} {log : List Exchange}

open EStateM

/-! ## A job and its record -/

/-- What does not look at the notes of the cleanup is the same for the job and its record. -/
theorem World.Agrees.congr {α : Type} (h : w.Agrees) (f : ExportJob → α)
    (hf : ∀ job, f job.owned = f job) :
    f w.record = f w.job :=
  calc f w.record = f w.record.owned := (hf _).symm
    _ = f w.job.owned := congrArg f h
    _ = f w.job := hf _

theorem World.Agrees.fixed (h : w.Agrees) : w.record.fixed = w.job.fixed :=
  h.congr ExportJob.fixed fun _ => rfl

theorem World.Agrees.proof (h : w.Agrees) (key : String) : w.record.proof key = w.job.proof key :=
  h.congr (ExportJob.proof · key) fun _ => rfl

theorem World.Agrees.race (h : w.Agrees) (key : String) : w.record.race key = w.job.race key :=
  h.congr (ExportJob.race · key) fun _ => rfl

theorem World.Agrees.winner (h : w.Agrees) (race : ExportPublicationRace) :
    publicationWinner env.sha w.record race = publicationWinner env.sha w.job race :=
  h.congr (publicationWinner env.sha · race) fun _ => rfl

theorem World.Agrees.describes (h : w.Agrees) (proof : OwnedObject) (output : Output) :
    describes env w.record proof output = describes env w.job proof output :=
  h.congr (WriteOnce.describes env · proof output) fun _ => rfl

theorem writeOnceKeys_of_fixed {job job' : ExportJob} (h : job'.fixed = job.fixed) :
    writeOnceKeys job' = writeOnceKeys job :=
  show writeOnceKeys job'.fixed = writeOnceKeys job.fixed from h ▸ rfl

theorem Change.fixed (h : Change env w fields) (job : ExportJob) :
    (fields job).fixed = job.fixed := by
  cases h with
  | uploadAbsent uploadId abortAcknowledged hrace => rfl
  | verified hrace hwinner => rfl
  | acknowledged hrace hwinner => rfl
  | proved hrace hwinner hkey => rfl
  | cleaned howned hobjects =>
      have h : (fields job).owned.fixed = job.owned.fixed := congrArg ExportJob.fixed (howned job)
      exact h

/-- No step touches the fixed part of the job or of its record. -/
theorem Step.fixed (h : Step env w w')
    (hfixed : w.job.fixed = job.fixed ∧ w.record.fixed = job.fixed) :
    w'.job.fixed = job.fixed ∧ w'.record.fixed = job.fixed := by
  obtain ⟨hjob, hrecord⟩ := hfixed
  cases h with
  | ask response hallowed => exact ⟨hjob, hrecord⟩
  | wrote hchange =>
      refine ⟨(hchange.fixed _).trans hjob, ?_⟩
      unfold World.wrote
      cases env.assigns with
      | true => exact (hchange.fixed _).trans hjob
      | false => exact (hchange.fixed _).trans hrecord
  | lost hchange =>
      refine ⟨?_, hrecord⟩
      unfold World.lost
      cases env.assigns with
      | true => exact (hchange.fixed _).trans hjob
      | false => exact hjob
  | noted hchange => exact ⟨(hchange.fixed _).trans hjob, hrecord⟩

theorem Runs.fixed (h : Runs env w w')
    (hfixed : w.job.fixed = job.fixed ∧ w.record.fixed = job.fixed) :
    w'.job.fixed = job.fixed ∧ w'.record.fixed = job.fixed := by
  induction h with
  | refl => exact hfixed
  | tail _ hstep ih => exact hstep.fixed ih

theorem Runs.job_fixed (h : Runs env w w') (hagrees : w.Agrees) : w'.job.fixed = w.job.fixed :=
  (h.fixed ⟨rfl, hagrees.fixed⟩).1

/-! ## The cleanup is a chain of steps -/

/-- A chain that reaches a state in which the job and its record agree. -/
def Reaches (env : Env) (w₀ w : World) : Prop := Runs env w₀ w ∧ w.Agrees

theorem Reaches.push {request : Request} (h : Reaches env w₀ w) (hread : request.reads = true)
    (response : Response) : Reaches env w₀ (w.push request response) :=
  ⟨h.1.trans (runs_read hread response), h.2.push request response⟩

/-- The rule for an operation whose own chain is known. -/
theorem Reaches.wp {α β : Type} {x : Prog α} {Q : α → World → Prop} {f : α → Prog β}
    {R : β → World → Prop} (h : Reaches env w₀ w) (hx : EStateM.wp x Q (fun _ => Runs env w) w)
    (hf : ∀ a w', Q a w' → EStateM.wp (f a) R (fun _ => Runs env w₀) w') :
    EStateM.wp (x >>= f) R (fun _ => Runs env w₀) w :=
  (hx.mono (fun _ _ hq => hq) fun _ _ hp => h.1.trans hp).bind hf

theorem Reaches.wrote (h : Reaches env w₀ w)
    (hchange : Change env w fields) (hf : ∀ job job' : ExportJob, job.owned = job'.owned →
      (fields job).owned = (fields job').owned) :
    Reaches env w₀ (w.wrote env fields) :=
  ⟨h.1.tail (.wrote hchange), h.2.wrote hf⟩

variable {race : ExportPublicationRace}

theorem owned_setRace {memory : ExportJob} (job job' : ExportJob) (h : job.owned = job'.owned) :
    (setRace memory race job).owned = (setRace memory race job').owned :=
  congrArg (setRace memory race) h

theorem race_key (h : job.race key = some race) :
    race.key = key := by
  simpa using List.find?_some h

theorem race_setRace (memory job : ExportJob) (race : ExportPublicationRace) :
    (setRace memory race job).race race.key = some race := by
  have hnone : (memory.publicationRaces.filter fun r => r.key != race.key).find?
      (·.key == race.key) = none := by
    rw [List.find?_eq_none]
    intro r hr
    simpa using (List.mem_filter.mp hr).2
  simp only [ExportJob.race, setRace, withRace, List.find?_append, hnone]
  simp

theorem cleanupUpload_reaches {upload : OwnedUpload} (h : Reaches env w₀ w)
    (hown : upload ∈ w.job.ownedUploads) :
    wp (cleanupUpload env upload) (fun _ => Reaches env w₀) (fun _ => Runs env w₀) w := by
  have hrecord : upload ∈ w.record.ownedUploads := by
    rw [h.2.congr ExportJob.ownedUploads fun _ => rfl]
    exact hown
  unfold cleanupUpload
  rw [wp_bind, wp_currentJob, wp_bind, wp_refuseIf]
  refine ⟨fun _ => h.1, fun _ => ?_⟩
  refine h.wp (abortUpload_spec hrecord) ?_
  rintro abortAcknowledged _ ⟨response, rfl⟩
  have h₁ : Reaches env w₀ (w.push (.abortMultipartUpload upload.key upload.uploadId) response) :=
    ⟨h.1.tail (.ask response hrecord), h.2⟩
  refine h₁.wp (partsAbsent_spec w.job upload.key upload.uploadId .unknown) ?_
  rintro _ _ ⟨response', rfl⟩
  obtain ⟨w₂, hw₂⟩ : ∃ w₂,
      w₂ = (w.push (.abortMultipartUpload upload.key upload.uploadId) response).push
      (.listParts upload.key upload.uploadId) response' := ⟨_, rfl⟩
  have h₂ : Reaches env w₀ w₂ := hw₂ ▸ h₁.push rfl response'
  have hjob₂ : w₂.job = w.job := by rw [hw₂]; rfl
  rw [← hw₂, ← hjob₂]
  cases hrace : w₂.job.race upload.key with
  | none => exact h₂
  | some race =>
      rw [← race_key hrace] at hrace
      have hchange : Change env w₂ _ := .uploadAbsent upload.uploadId abortAcknowledged hrace
      refine (saveRace_spec hchange).mono ?_ fun _ _ hp => h₂.1.trans hp
      rintro _ _ rfl
      exact h₂.wrote hchange owned_setRace

theorem cleanupRace_reaches (h : Reaches env w₀ w) :
    wp (cleanupRace env race) (fun _ => Reaches env w₀) (fun _ => Runs env w₀) w := by
  unfold cleanupRace
  rw [wp_bind, wp_currentJob, wp_ite]
  refine ⟨fun _ => ?_, fun _ => h⟩
  refine (assertRaceUploadsAbsent_spec race).mono ?_ fun _ _ hp => h.1.trans hp
  rintro _ _ ⟨response, rfl⟩
  exact h.push rfl response

/-- If the key has a race, the race has a winner. -/
def Owned (env : Env) (job : ExportJob) (key : String) : Prop :=
  ∀ race, job.race key = some race → (publicationWinner env.sha job race).isSome

theorem recordWinner_reaches {winner : ExportPublicationAttempt} (h : Reaches env w₀ w)
    (hrace : w.job.race race.key = some race)
    (hsome : (publicationWinner env.sha w.job race).isSome) :
    wp (recordWinner env race winner) (fun _ w' => Reaches env w₀ w' ∧ Owned env w'.job race.key)
      (fun _ => Runs env w₀) w := by
  unfold recordWinner
  refine h.wp (record_spec hrace hsome h.2) ?_
  rintro _ w₁ ⟨hruns, hagrees, proof, hkey, hjob⟩
  have h₁ : Reaches env w₀ w₁ := ⟨h.1.trans hruns, hagrees⟩
  have hrace₁ : w₁.job.race race.key = some race := by
    rw [hjob]
    exact hrace
  have hsome₁ : (publicationWinner env.sha w₁.job race).isSome := by
    rw [hjob]
    exact winner_setReceipts hsome
  have hchange : Change env w₁ _ := .verified hrace₁ hsome₁
  refine (saveRace_spec hchange).mono ?_ fun _ _ hp => h₁.1.trans hp
  rintro _ _ rfl
  refine ⟨h₁.wrote hchange owned_setRace, fun race' hr => ?_⟩
  have hsaved : (w₁.wrote env (setRace w₁.job { race with state := .verified })).job.race race.key =
      some { race with state := .verified } := race_setRace w₁.job w₁.job _
  obtain rfl : { race with state := .verified } = race' := by
    rw [hsaved] at hr
    exact Option.some.inj hr
  have heq : publicationWinner env.sha
      (w₁.wrote env (setRace w₁.job { race with state := .verified })).job
      { race with state := .verified } = publicationWinner env.sha w₁.job race :=
    (publicationWinner_congr rfl rfl).trans (publicationWinner_verified hsome₁)
  rw [heq]
  exact hsome₁

theorem proveOwnership_reaches {observed : Output} (h : Reaches env w₀ w) :
    wp (proveOwnership env key observed) (fun _ w' => Reaches env w₀ w' ∧ Owned env w'.job key)
      (fun _ => Runs env w₀) w := by
  unfold proveOwnership
  rw [wp_bind, wp_currentJob]
  cases hrace : w.job.race key with
  | none => exact ⟨h, fun race hr => by rw [hrace] at hr; cases hr⟩
  | some race =>
      obtain rfl := race_key hrace
      dsimp only
      cases hwinner : publicationWinner env.sha w.job race with
      | none => exact h.1
      | some winner =>
          have hsome : (publicationWinner env.sha w.job race).isSome := by rw [hwinner]; rfl
          dsimp only
          rw [wp_ite]
          refine ⟨fun _ => recordWinner_reaches h hrace hsome, fun _ => ⟨h, fun race' hr => ?_⟩⟩
          rw [hrace] at hr
          obtain rfl := Option.some.inj hr
          exact hsome

theorem KeyAbsent.append (h : KeyAbsent key log) (more : List Exchange) :
    KeyAbsent key (log ++ more) := by
  obtain ⟨x, hx, hrequest, herror⟩ := h
  exact ⟨x, List.mem_append_left more hx, hrequest, herror⟩

theorem keyAbsent_push {error : Failure} (h : error.exportHttpStatus = some 404) :
    KeyAbsent key (w.push (.headObject key none) (.error error)).sent :=
  ⟨_, List.mem_append_right _ (List.mem_singleton.mpr rfl), rfl, error, rfl, h⟩

theorem proof_key {proof : OwnedObject} (h : job.proof key = some proof) :
    proof.key = key := by
  simpa using List.find?_some h

/-- The requests of a cleanup before it deletes a key. -/
def World.checked (w : World) (key etag : String) (h g h' v : Output) : World :=
  (((w.push (.headObject key (some etag)) (.ok h)).push (.getObject key (some etag)) (.ok g)).push
    (.headObject key (some etag)) (.ok h')).push .getBucketVersioning (.ok v)

theorem allowed_delete {proof : OwnedObject} {h g h' v : Output} {body : Body}
    (ifMatch : Option String) (hagrees : w.Agrees) (hkey : key ∈ writeOnceKeys w.job)
    (howned : Owned env w.job key) (hproof : w.job.proof key = some proof)
    (hh : describes env w.job proof h = true) (hg : describes env w.job proof g = true)
    (hbody : g.Body = some body) (hbreaks : body.breaks = false)
    (hlength : body.chunks.flatten.length = proof.bytes)
    (hdigest : env.sha body.chunks.flatten = proof.sha256)
    (hh' : describes env w.job proof h' = true) (hv : v.Status = none) :
    Allowed env w.record (w.checked key proof.etag h g h' v).sent (.deleteObject key ifMatch) := by
  obtain rfl := proof_key hproof
  rw [← hagrees.describes] at hh hg hh'
  refine ⟨?_, proof, (hagrees.proof _).trans hproof, ?_, ?_⟩
  · rw [writeOnceKeys_of_fixed hagrees.fixed]
    exact hkey
  · refine ⟨w.sent, ⟨.headObject proof.key (some proof.etag), .ok h, w.record⟩,
      ⟨.getObject proof.key (some proof.etag), .ok g, w.record⟩,
      ⟨.headObject proof.key (some proof.etag), .ok h', w.record⟩,
      ⟨.getBucketVersioning, .ok v, w.record⟩, ?_, ⟨rfl, h, rfl, hh⟩,
      ⟨rfl, g, body, rfl, hg, hbody, hbreaks, hlength, hdigest⟩,
      ⟨rfl, h', rfl, hh'⟩, ⟨rfl, v, rfl, hv⟩⟩
    simp [World.checked, World.push]
  · intro race hrace
    rw [hagrees.winner]
    exact howned race ((hagrees.race _).symm.trans hrace)

theorem deleteOwned_reaches {observed : Output} (h : Reaches env w₀ w)
    (hkey : key ∈ writeOnceKeys w.job) :
    wp (deleteOwned env key observed) (fun _ w' => Reaches env w₀ w' ∧ KeyAbsent key w'.sent)
      (fun _ => Runs env w₀) w := by
  unfold deleteOwned
  rw [wp_bind]
  refine (proveOwnership_reaches ⟨.refl, h.2⟩).mono ?_ fun _ _ hp => h.1.trans hp
  rintro _ w₁ ⟨⟨hruns, hagrees⟩, howned⟩
  have h₁ : Reaches env w₀ w₁ := ⟨h.1.trans hruns, hagrees⟩
  -- No step changes the keys of the job.
  have hkey₁ : key ∈ writeOnceKeys w₁.job := by
    rw [writeOnceKeys_of_fixed (hruns.job_fixed h.2)]
    exact hkey
  rw [wp_bind, wp_currentJob]
  cases hproof : w₁.job.proof key with
  | none => exact h₁.1
  | some proof =>
      dsimp only
      rw [wp_bind, wp_refuseIf]
      refine ⟨fun _ => h₁.1, fun _ => ?_⟩
      refine h₁.wp (readback_spec w₁.job key) ?_
      rintro _ _ ⟨proof', o, g, hproof', rfl, ho, hg, body, hbody, hbreaks, hlength, hdigest⟩
      obtain rfl := Option.some.inj (hproof.symm.trans hproof')
      have h₂ : Reaches env w₀ ((w₁.push (.headObject key (some proof.etag)) (.ok o)).push
          (.getObject key (some proof.etag)) (.ok g)) := (h₁.push rfl _).push rfl _
      refine h₂.wp (head_spec w₁.job key) ?_
      rintro o' _ ⟨rfl, ho'⟩
      simp only [matchesProof, hproof, Option.any_some] at ho'
      refine (h₂.push rfl _).wp unversioned_spec ?_
      rintro _ _ ⟨v, rfl, hv⟩
      simp only [hproof, Option.map_some]
      have h₄ : Reaches env w₀ (w₁.checked key proof.etag o g o' v) := (h₂.push rfl _).push rfl _
      -- All four answers read before the deletion agree with the proof.
      have hallowed (ifMatch : Option String) := allowed_delete ifMatch hagrees hkey₁ howned hproof
        ho hg hbody hbreaks hlength hdigest ho' hv
      change wp _ _ _ (w₁.checked key proof.etag o g o' v)
      rw [wp_bind, wp_ofExcept]
      refine ⟨fun key' hscope => ?_, fun _ _ => h₄.1⟩
      obtain rfl := scope_eq_ok hscope
      rw [wp_bind]
      refine wp_send (fun output => ?_) fun error e _ => h₄.1.tail (.ask _ (hallowed _))
      -- The deletion was sent; the 404 that follows it shows that the key is absent.
      have h₅ := h₄.1.tail (.ask (.ok output) (hallowed
        (if (w₁.job.cleanupEvidence == some .conditionalEtag) then some proof.etag else none)))
      refine (absent_spec w₁.job key').mono ?_ fun _ _ hp => h₅.trans hp
      rintro _ _ ⟨error, rfl, h404⟩
      exact ⟨⟨h₅.trans (runs_read rfl _), h₄.2⟩, keyAbsent_push h404⟩

theorem cleanupKey_reaches (h : Reaches env w₀ w) (hkey : key ∈ writeOnceKeys w.job) :
    wp (cleanupKey env key) (fun _ w' => Reaches env w₀ w' ∧ KeyAbsent key w'.sent)
      (fun _ => Runs env w₀) w := by
  unfold cleanupKey
  rw [wp_bind, wp_currentJob, wp_bind, wp_observe]
  refine wp_scoped (fun key => .headObject key none) (fun observed => ?_) (fun error e he => ?_)
    fun e he => ?_
  · exact deleteOwned_reaches (h.push rfl _) hkey
  · change wp (if _ then _ else _) _ _ _
    rw [wp_ite]
    exact ⟨fun ha => ⟨h.push rfl _, keyAbsent_push (he ha)⟩, fun _ => (h.push rfl _).1⟩
  · change wp (if _ then _ else _) _ _ _
    rw [wp_ite]
    exact ⟨fun ha => absurd ha (by simp [he]), fun _ => h.1⟩

theorem Step.sent (h : Step env w w') : ∃ more, w'.sent = w.sent ++ more := by
  cases h with
  | ask response hallowed => exact ⟨_, rfl⟩
  | wrote hchange => exact ⟨[], (List.append_nil _).symm⟩
  | lost hchange => exact ⟨[], (List.append_nil _).symm⟩
  | noted hchange => exact ⟨[], (List.append_nil _).symm⟩

theorem Runs.sent (h : Runs env w w') : ∃ more, w'.sent = w.sent ++ more := by
  induction h with
  | refl => exact ⟨[], (List.append_nil _).symm⟩
  | tail _ hstep ih =>
      obtain ⟨more, hmore⟩ := ih
      obtain ⟨more', hmore'⟩ := hstep.sent
      exact ⟨more ++ more', by rw [hmore', hmore, List.append_assoc]⟩

theorem Emptied.append (h : Emptied job log) (more : List Exchange) :
    Emptied job (log ++ more) := by
  obtain ⟨before, x, after, rfl, hx, hkeys⟩ := h
  exact ⟨before, x, after ++ more, by simp, hx, hkeys⟩

theorem emptied_of_fixed {job job' : ExportJob} (hfixed : job'.fixed = job.fixed)
    (h : Emptied job log) : Emptied job' log := by
  have heq : Emptied job'.fixed log = Emptied job.fixed log := by rw [hfixed]
  exact heq ▸ h

/-! ### The notes of the cleanup -/

/-- A write of fields that the job in memory has already. -/
theorem wp_update_same {Q : Unit → World → Prop} {E : Failure → World → Prop}
    (hsame : fields w.job = w.job) :
    wp (update env fields) Q E w ↔
      (env.commits w.writes = true → Q () (w.wrote env fields)) ∧
      (env.commits w.writes = false → E .journal (w.lost env fields)) := by
  rw [wp_update]
  have h : { w.wrote env fields with job := if env.assigns then fields w.job else w.job } =
      w.wrote env fields := by
    unfold World.wrote
    cases env.assigns <;> simp [hsame]
  rw [h]

theorem objectsAbsent_setMultipart {value : Absence} (h : (setMultipart value job).ObjectsAbsent) :
    job.ObjectsAbsent := by
  unfold ExportJob.ObjectsAbsent setMultipart at *
  cases hs : job.cleanupState with
  | none =>
      rw [hs] at h
      cases h
  | some state =>
      rw [hs] at h
      exact h

theorem change_setMultipart (value : Absence) : Change env w (setMultipart value) :=
  .cleaned (fun _ => rfl) fun _ h => .inl (objectsAbsent_setMultipart h)

theorem Reaches.noted (h : Reaches env w₀ w) (hchange : Change env w fields)
    (howned : ∀ job, (fields job).owned = job.owned) :
    Reaches env w₀ (w.noted fields) := by
  refine ⟨h.1.tail (.noted hchange), ?_⟩
  unfold World.Agrees World.noted
  rw [howned]
  exact h.2

/-- A cleanup state that is written only where it is true. -/
theorem change_setCleanupState (state : Option CleanupState)
    (h : state.map (·.objects) = some .verifiedAbsent →
      w.job.ObjectsAbsent ∨ Emptied w.job w.sent) :
    Change env w (setCleanupState state) :=
  .cleaned (fun _ => rfl) fun _ hobjects => .inr (h hobjects)

theorem Reaches.update (h : Reaches env w₀ w) (hchange : Change env w fields)
    (hsame : fields w.job = w.job) (howned : ∀ job, (fields job).owned = job.owned) :
    EStateM.wp (update env fields) (fun _ => Reaches env w₀) (fun _ => Runs env w₀) w := by
  rw [wp_update_same hsame]
  refine ⟨fun _ => h.wrote hchange fun job job' hjob => ?_, fun _ => h.1.tail (.lost hchange)⟩
  rw [howned, howned]
  exact hjob

/-! ### The whole cleanup -/

theorem cleanupMultipart_reaches (h : w.Agrees) :
    wp (cleanupMultipart env) (fun _ => Reaches env w) (fun _ => Runs env w) w := by
  have h₀ : Reaches env w w := ⟨.refl, h⟩
  unfold cleanupMultipart
  refine h₀.wp unversioned_spec ?_
  rintro _ _ ⟨v, rfl, -⟩
  rw [wp_bind, wp_currentJob, wp_bind]
  refine wp_send (fun pending => ?_) fun error e _ => ((h₀.push rfl _).push rfl _).1
  obtain ⟨w₂, hw₂⟩ : ∃ w₂, w₂ = (w.push .getBucketVersioning (.ok v)).push
      (.listMultipartUploads w.job.key) (.ok pending) := ⟨_, rfl⟩
  have h₂ : Reaches env w w₂ := hw₂ ▸ (h₀.push rfl _).push rfl _
  rw [World.push_job, ← hw₂]
  rw [wp_bind, wp_refuseIf]
  refine ⟨fun _ => h₂.1, fun _ => ?_⟩
  rw [wp_bind, wp_refuseIf]
  refine ⟨fun _ => h₂.1, fun _ => ?_⟩
  refine EStateM.wp.bind (wp_forM (I := Reaches env w) ?_ h₂) ?_
  · intro upload hupload s hs
    refine cleanupUpload_reaches hs ?_
    have heq : s.job.fixed.ownedUploads = w.job.fixed.ownedUploads := by rw [hs.1.job_fixed h]
    exact heq ▸ hupload
  intro _ w₃ h₃
  rw [wp_bind, wp_currentJob]
  refine EStateM.wp.bind (wp_forM (I := Reaches env w) ?_ h₃) ?_
  · exact fun race _ s hs => cleanupRace_reaches hs
  intro _ w₄ h₄
  rw [wp_bind, wp_assign]
  have h₅ := h₄.noted (change_setMultipart .verifiedAbsent) fun _ => rfl
  rw [wp_bind, wp_currentJob]
  exact h₅.update (change_setCleanupState _ .inl) rfl fun _ => rfl

theorem cleanupKeys_reaches (h : w₀.Agrees) (hreach : Reaches env w₀ w) :
    wp ((writeOnceKeys w.job).forM (cleanupKey env))
      (fun _ w' => Reaches env w₀ w' ∧ ∀ key ∈ writeOnceKeys w₀.job, KeyAbsent key w'.sent)
      (fun _ => Runs env w₀) w := by
  rw [writeOnceKeys_of_fixed (hreach.1.job_fixed h)]
  refine wp_forM_each (D := fun key w => KeyAbsent key w.sent) ?_ hreach
  intro key hkey s hs
  have hkey' : key ∈ writeOnceKeys s.job := by
    rw [writeOnceKeys_of_fixed (hs.1.job_fixed h)]
    exact hkey
  refine (cleanupKey_reaches ⟨.refl, hs.2⟩ hkey').mono ?_ fun _ _ hp => hs.1.trans hp
  rintro _ s' ⟨⟨hruns, hagrees⟩, habsent⟩
  refine ⟨⟨hs.1.trans hruns, hagrees⟩, habsent, fun other hother => ?_⟩
  obtain ⟨more, hmore⟩ := hruns.sent
  rw [hmore]
  exact hother.append more

theorem confirmAbsence_reaches (hreach : Reaches env w₀ w)
    (hkeys : ∀ key ∈ writeOnceKeys w.job, KeyAbsent key w.sent) :
    wp (confirmAbsence env) (fun _ => Reaches env w₀) (fun _ => Runs env w₀) w := by
  unfold confirmAbsence
  rw [wp_bind, wp_currentJob, wp_bind]
  refine wp_send (fun remaining => ?_) fun error e _ => (hreach.push rfl _).1
  have h₁ : Reaches env w₀ (w.push (.listMultipartUploads w.job.key) (.ok remaining)) :=
    hreach.push rfl _
  rw [wp_ite]
  refine ⟨fun _ => ?_, fun hnone => ?_⟩
  · rw [wp_bind, wp_assign]
    exact (h₁.noted (change_setMultipart .unverified) fun _ => rfl).1
  · refine h₁.wp unversioned_spec ?_
    rintro _ _ ⟨v, rfl, -⟩
    simp only [Bool.or_eq_true, beq_iff_eq, not_or, Bool.not_eq_true] at hnone
    have hempty : Emptied w.job (w.push (.listMultipartUploads w.job.key) (.ok remaining)).sent :=
      ⟨w.sent, _, [], rfl, ⟨rfl, remaining, rfl, hnone⟩, hkeys⟩
    obtain ⟨w₂, hw₂⟩ : ∃ w₂, w₂ = (w.push (.listMultipartUploads w.job.key) (.ok remaining)).push
        .getBucketVersioning (.ok v) := ⟨_, rfl⟩
    have h₂ : Reaches env w₀ w₂ := hw₂ ▸ h₁.push rfl _
    have hempty₂ : Emptied w₂.job w₂.sent := hw₂ ▸ hempty.append _
    rw [← hw₂, wp_bind, wp_assign]
    have h₃ := h₂.noted (change_setCleanupState
      (some { objects := .verifiedAbsent, multipart := .verifiedAbsent })
      fun _ => .inr hempty₂) fun _ => rfl
    exact h₃.update (change_setCleanupState _ fun _ => .inl rfl) rfl fun _ => rfl

theorem performCleanup_runs (h : w.Agrees) :
    wp (performCleanup env) (fun _ => Runs env w) (fun _ => Runs env w) w := by
  unfold performCleanup
  refine (cleanupMultipart_reaches h).bind fun _ w₁ h₁ => ?_
  rw [wp_bind, wp_currentJob]
  refine (cleanupKeys_reaches h h₁).bind ?_
  rintro _ w₂ ⟨h₂, hkeys⟩
  refine (confirmAbsence_reaches h₂ ?_).mono (fun _ _ hr => hr.1) fun _ _ hr => hr
  rw [writeOnceKeys_of_fixed (h₂.1.job_fixed h)]
  exact hkeys

/-- A job as the cleanup starts on it: with its own notes cleared. -/
def World.reset (job : ExportJob) : World :=
  (World.start job).noted (setCleanupState
    (some { objects := .unverified, multipart := .unverified }))

/-- The cleanup is a chain of allowed steps, whatever the provider answers and the
journal loses. -/
theorem cleanup_runs (env : Env) (job : ExportJob) :
    Runs env (World.reset job) ((cleanup env).after (World.start job)) := by
  refine wp_iff_after.mp (?_ : wp (cleanup env) (fun _ => Runs env (World.reset job))
    (fun _ => Runs env (World.reset job)) (World.start job))
  unfold cleanup
  rw [wp_bind, wp_assign, wp_bind, wp_observe]
  have hagrees : (World.reset job).Agrees := rfl
  refine (performCleanup_runs hagrees).mono (fun _ w₂ h₂ => h₂) fun error w₂ h₂ => ?_
  have hchange {w : World} {first diagnostic : ExportDiagnostic} :
      Change env w (setCleanupFailure first diagnostic w.job.cleanupState) :=
    .cleaned (fun _ => rfl) fun _ h => .inr (.inl h)
  change wp (currentJob >>= _) _ _ _
  rw [wp_bind, wp_currentJob, wp_bind, wp_assign, wp_bind, wp_update_same rfl]
  exact ⟨fun _ => (h₂.tail (.noted hchange)).tail (.wrote hchange),
    fun _ => (h₂.tail (.noted hchange)).tail (.lost hchange)⟩

/-! ## Invariants of a chain -/

/-- Every request was allowed by the record that was durable and the requests before it. -/
def Sound (env : Env) (log : List Exchange) : Prop :=
  ∀ before x after, log = before ++ x :: after → Allowed env x.record before x.request

theorem Sound.push {request : Request} {response : Response} (h : Sound env w.sent)
    (hallowed : Allowed env w.record w.sent request) :
    Sound env (w.push request response).sent := by
  intro before x after hlog
  change w.sent ++ [_] = before ++ x :: after at hlog
  rcases List.eq_nil_or_concat after with rfl | ⟨after', y, rfl⟩
  · obtain ⟨rfl, hx⟩ := List.append_inj' hlog rfl
    obtain rfl := List.head_eq_of_cons_eq hx
    exact hallowed
  · rw [List.concat_eq_append, ← List.cons_append, ← List.append_assoc] at hlog
    exact h before x after' (List.append_inj_left' hlog rfl)

/-- What a chain of steps keeps, from the record it started with. -/
structure Kept (env : Env) (job : ExportJob) (w : World) : Prop where
  fixed : w.job.fixed = job.fixed ∧ w.record.fixed = job.fixed
  sent : ∀ x ∈ w.sent, x.record.fixed = job.fixed
  sound : Sound env w.sent
  /-- the namespace is called empty only where it was seen empty -/
  memory : w.job.ObjectsAbsent → Emptied job w.sent
  durable : w.record.ObjectsAbsent → job.ObjectsAbsent ∨ Emptied job w.sent

theorem Kept.reset (job : ExportJob) : Kept env job (World.reset job) where
  fixed := ⟨rfl, rfl⟩
  sent := by simp [World.reset, World.start, World.noted]
  sound := by
    intro before x after hlog
    simp [World.reset, World.start, World.noted] at hlog
  memory := by
    intro h
    cases h
  durable := .inl

theorem Change.objects (h : Change env w fields) (hobjects : (fields job).ObjectsAbsent) :
    job.ObjectsAbsent ∨ w.job.ObjectsAbsent ∨ Emptied w.job w.sent := by
  cases h with
  | uploadAbsent uploadId abortAcknowledged hrace => exact .inl hobjects
  | verified hrace hwinner => exact .inl hobjects
  | acknowledged hrace hwinner => exact .inl hobjects
  | proved hrace hwinner hkey => exact .inl hobjects
  | cleaned howned hcleaned => exact hcleaned job hobjects

theorem Kept.memory_change (h : Kept env job w) (hchange : Change env w fields)
    (hobjects : (fields w.job).ObjectsAbsent) :
    Emptied job w.sent := by
  rcases hchange.objects hobjects with hold | hmemory | hempty
  · exact h.memory hold
  · exact h.memory hmemory
  · exact emptied_of_fixed h.fixed.1.symm hempty

theorem Kept.durable_change (h : Kept env job w) (hchange : Change env w fields)
    (hobjects : (fields w.record).ObjectsAbsent) :
    job.ObjectsAbsent ∨ Emptied job w.sent := by
  rcases hchange.objects hobjects with hold | hmemory | hempty
  · exact h.durable hold
  · exact .inr (h.memory hmemory)
  · exact .inr (emptied_of_fixed h.fixed.1.symm hempty)

theorem Step.kept (hstep : Step env w w') (h : Kept env job w) :
    Kept env job w' := by
  have hfixed := hstep.fixed h.fixed
  cases hstep with
  | @ask request response hallowed =>
      refine ⟨hfixed, ?_, h.sound.push hallowed, fun ho => (h.memory ho).append _,
        fun ho => (h.durable ho).imp_right fun he => he.append _⟩
      intro x hx
      rcases List.mem_append.mp hx with hold | hnew
      · exact h.sent x hold
      · obtain rfl := List.mem_singleton.mp hnew
        exact h.fixed.2
  | wrote hchange =>
      refine ⟨hfixed, h.sent, h.sound, h.memory_change hchange, ?_⟩
      unfold World.wrote
      cases env.assigns with
      | true => exact fun ho => .inr (h.memory_change hchange ho)
      | false => exact h.durable_change hchange
  | lost hchange =>
      refine ⟨hfixed, h.sent, h.sound, ?_, h.durable⟩
      unfold World.lost
      cases env.assigns with
      | true => exact h.memory_change hchange
      | false => exact h.memory
  | noted hchange => exact ⟨hfixed, h.sent, h.sound, h.memory_change hchange, h.durable⟩

theorem Runs.kept (hruns : Runs env w w') (h : Kept env job w) :
    Kept env job w' := by
  induction hruns with
  | refl => exact h
  | tail _ hstep ih => exact hstep.kept ih

/-! ## Nothing foreign is deleted -/

/-- For every record, every sequence of answers and every loss of journal writes: a
deleted key is one of the job's own, with a durable proof that the requests just before
it matched, and a race of that key has a winner; an aborted upload is a recorded one; and
the objects are called absent, in memory or newly in the record, only after every key
answered 404 and a listing that was not reported truncated showed none of them. -/
theorem cleanup_deletes_own (env : Env) (job : ExportJob) :
    (∀ before x after, ((cleanup env).after (World.start job)).sent = before ++ x :: after →
      ∀ key ifMatch, x.request = .deleteObject key ifMatch →
        key ∈ writeOnceKeys job ∧
          ∃ proof, x.record.proof key = some proof ∧ Verified env x.record proof before ∧
            ∀ race, x.record.race key = some race →
              (publicationWinner env.sha x.record race).isSome) ∧
    (∀ x ∈ ((cleanup env).after (World.start job)).sent,
      ∀ key uploadId, x.request = .abortMultipartUpload key uploadId →
        { key := key, uploadId := uploadId } ∈ x.record.ownedUploads) ∧
    (((cleanup env).after (World.start job)).job.ObjectsAbsent ∨
        (((cleanup env).after (World.start job)).record.ObjectsAbsent ∧ ¬job.ObjectsAbsent) →
      Emptied job ((cleanup env).after (World.start job)).sent) := by
  have hkept : Kept env job ((cleanup env).after (World.start job)) :=
    (cleanup_runs env job).kept (.reset job)
  refine ⟨fun before x after hlog key ifMatch hx => ?_, fun x hx key uploadId hreq => ?_, ?_⟩
  · have hallowed := hkept.sound before x after hlog
    rw [hx] at hallowed
    have hmem : x ∈ ((cleanup env).after (World.start job)).sent := by
      rw [hlog]
      exact List.mem_append_right before List.mem_cons_self
    refine ⟨?_, hallowed.2⟩
    rw [← writeOnceKeys_of_fixed (hkept.sent x hmem)]
    exact hallowed.1
  · obtain ⟨before, after, hlog⟩ := List.append_of_mem hx
    have hallowed := hkept.sound before x after hlog
    rw [hreq] at hallowed
    exact hallowed
  · rintro (hmemory | ⟨hdurable, hnot⟩)
    · exact hkept.memory hmemory
    · exact (hkept.durable hdurable).resolve_left hnot

/-! ## A proof without a race -/

/-- An object of the sample job, as the provider describes it. -/
def sampleObject : Output where
  ETag := some "\"e\""
  ContentLength := some 1
  LastModified := some (.at 0)
  ServerSideEncryption := some "AES256"
  Metadata :=
    [("pluton-export-job", "00000000-0000-0000-0000-000000000000"),
      ("pluton-export-binding", "digest"), ("pluton-export-nonce", "nonce")]
  Body := some { chunks := [[7]] }

/-- A job with a proof for the object of its race and no race: the record of a job that
raced before races were recorded. -/
def sampleJob : ExportJob where
  id := "00000000-0000-0000-0000-000000000000"
  key := "exports/00000000-0000-0000-0000-000000000000.tar"
  binding := "\x7b\x7d"
  destination := "fingerprint"
  integrityMode := some .hcpWriteOnce
  ownershipNonce := some "nonce"
  ownedObjects :=
    [{ key := "exports/00000000-0000-0000-0000-000000000000.tar.probe-race",
       etag := "\"e\"", bytes := 1
       sha256 := "digest", created := "1970-01-01T00:00:00.000Z" }]

def sampleAbsent : Response := .error (.provider { httpStatusCode := some 404 })

/-- The first two keys are absent, the object of the race is there until it is deleted. -/
def sampleAnswers : List Response :=
  [.ok {}, .ok {}, sampleAbsent, sampleAbsent, .ok sampleObject, .ok sampleObject, .ok sampleObject,
    .ok sampleObject, .ok {}, .ok {}, sampleAbsent, sampleAbsent, .ok {}, .ok {}]

def sampleEnv : Env where
  bucket := "bucket"
  folder := "exports"
  fingerprint := "fingerprint"
  sha := fun _ => "digest"
  answer := fun n => (sampleAnswers[n]?).getD sampleAbsent
  commits := fun _ => true

/-- The object of a race is deleted although the record has no race for it. -/
theorem race_object_deleted_without_race :
    ¬∀ (env : Env) (job : ExportJob), ∀ x ∈ ((cleanup env).after (World.start job)).sent,
      ∀ key ifMatch, x.request = .deleteObject key ifMatch → key = job.key ++ ".probe-race" →
        ∃ race, x.record.race key = some race ∧
          (publicationWinner env.sha x.record race).isSome := by
  intro h
  have hsent : ((cleanup sampleEnv).after (World.start sampleJob)).sent.any (fun x =>
      x.request == .deleteObject (sampleJob.key ++ ".probe-race") none &&
        x.record.race (sampleJob.key ++ ".probe-race") == none) = true := by decide +kernel
  obtain ⟨x, hx, hdelete⟩ := List.any_eq_true.mp hsent
  simp only [Bool.and_eq_true, beq_iff_eq] at hdelete
  obtain ⟨race, hrace, -⟩ := h sampleEnv sampleJob x hx _ _ hdelete.1 rfl
  rw [hdelete.2] at hrace
  cases hrace

end Pluton.WriteOnce
