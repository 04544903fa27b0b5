-- SUMMARY: The competitors of a race settling in any order, with journal writes that may be lost.
import Pluton.WriteOnce.Cleanup

/-!
# Settling

The competitors of a race settle one after another through the race in memory. While no
write is lost, memory and record are the same and hold the receipts so far; from the
first loss on, the record holds a race that nobody will judge won.
-/
namespace Pluton.WriteOnce

variable {env : Env} {w w' : World} {job : ExportJob} {replies : Nat → Reply}
  {race : ExportPublicationRace} {receipts : List CreationReceipt}
  {attempts : List ExportPublicationAttempt} {order : List Nat} {key : String}
  {races : List ExportPublicationRace} {i : Nat} {E : Failure → World → Prop}
  {a : ExportPublicationAttempt} {failed : Bool}

open EStateM

/-! ## Saving a race -/

theorem withRace_withRace {race race' : ExportPublicationRace} (h : race'.key = race.key) :
    withRace race' (withRace race races) = withRace race' races := by
  simp [withRace, List.filter_append, h]

theorem length_withRace {race race' : ExportPublicationRace} (h : race'.key = race.key) :
    (withRace race' races).length = (withRace race races).length := by
  simp [withRace, h]

theorem acknowledge_acknowledge (key : String) (receipts : List CreationReceipt) :
    acknowledge key (acknowledge key receipts) = acknowledge key receipts := by
  simp [acknowledge, List.filter_append]

/-- `publicationRaces` and `creationReceipts` of a save. -/
def saved (races : List ExportPublicationRace) (receipts : List CreationReceipt) (job : ExportJob) :
    ExportJob :=
  { job with publicationRaces := races, creationReceipts := receipts }

/-- The job while the competitors of the race settle. -/
def settling (job : ExportJob) (race : ExportPublicationRace) (receipts : List CreationReceipt) :
    ExportJob :=
  saved (withRace race job.publicationRaces) receipts job

theorem race_settling :
    (settling job race receipts).race race.key = some race := race_setRace job job race

/-- A receipt looks at the job for the state of its cleanup only. -/
theorem receipt_congr {job job' : ExportJob} (hstate : job'.cleanupState = job.cleanupState)
    (key : String) (reply : Reply) :
    receipt env job' key reply = receipt env job key reply := by
  funext a
  cases reply with
  | ok result => rfl
  | error error =>
      cases error with
      | provider inner => simp [receipt, exportDiagnostic, hstate]
      | operation inner => simp [receipt, exportDiagnostic, hstate]
      | temporary reason => simp [receipt, exportDiagnostic, hstate]
      | journal => simp [receipt, exportDiagnostic, hstate]
      | cleanup diagnostic => rfl

theorem receipt_settling (race : ExportPublicationRace) (receipts : List CreationReceipt)
    (key : String) (reply : Reply) :
    receipt env (settling job race receipts) key reply = receipt env job key reply := by
  rw [receipt_congr]
  rfl

/-- The race after one more competitor has settled. -/
def nextRace (env : Env) (job : ExportJob) (key : String) (failed : Bool) (i : Nat) (reply : Reply)
    (race : ExportPublicationRace) : ExportPublicationRace :=
  let attempts := race.attempts.modify i (receipt env job key reply)
  { race with
    attempts := attempts
    state := if failed then .ambiguous else publicationVerdict attempts race.protocol }

def nextReceipts (key : String) (reply : Reply) (receipts : List CreationReceipt) :
    List CreationReceipt :=
  if reply.toBool then acknowledge key receipts else receipts

theorem settle_spec {reply : Reply} {Q : Bool → World → Prop}
    (hjob : w.job = settling job race receipts)
    (hlength : (withRace race job.publicationRaces).length ≤ 2)
    (hcommit : env.commits w.writes = true → Q failed (w.wrote env
      (saved (withRace (nextRace env job race.key failed i reply race) job.publicationRaces)
        (nextReceipts race.key reply receipts))))
    (hlost : env.commits w.writes = false → Q true (w.lost env
      (saved (withRace (nextRace env job race.key failed i reply race) job.publicationRaces)
        (nextReceipts race.key reply receipts)))) :
    wp (settle env race.key failed i reply) Q E w := by
  unfold settle
  rw [wp_bind, wp_currentJob, hjob, race_settling]
  simp only [receipt_settling]
  rw [wp_bind, wp_observe]
  unfold saveRace
  rw [wp_bind, wp_currentJob, wp_bind, wp_refuseIf, hjob]
  have hraces : withRace (nextRace env job race.key failed i reply race)
      (settling job race receipts).publicationRaces =
      withRace (nextRace env job race.key failed i reply race) job.publicationRaces :=
    withRace_withRace rfl
  refine ⟨fun hquota => ?_, fun _ => ?_⟩
  · change decide (2 < (withRace (nextRace env job race.key failed i reply race)
      (settling job race receipts).publicationRaces).length) = true at hquota
    rw [hraces] at hquota
    have hnext :
        (withRace (nextRace env job race.key failed i reply race) job.publicationRaces).length =
        (withRace race job.publicationRaces).length := length_withRace rfl
    exact absurd (of_decide_eq_true hquota) (by omega)
  · change wp (journal env (saved (withRace (nextRace env job race.key failed i reply race)
      (settling job race receipts).publicationRaces) (nextReceipts race.key reply receipts))) _ _ _
    rw [hraces]
    exact (wp_journal
      (saved (withRace (nextRace env job race.key failed i reply race) job.publicationRaces)
      (nextReceipts race.key reply receipts)) fun _ => rfl).mpr ⟨hcommit, hlost⟩

/-! ## Receipts in any order -/

/-- The receipts of the competitors named, put into their places. -/
def withReceipts (env : Env) (job : ExportJob) (key : String) (replies : Nat → Reply)
    (order : List Nat) (attempts : List ExportPublicationAttempt) : List ExportPublicationAttempt :=
  order.foldl (fun as i => as.modify i (receipt env job key (replies i))) attempts

theorem modify_comm {α : Type} (f : Nat → α → α) (l : List α) (i j : Nat) :
    (l.modify i (f i)).modify j (f j) = (l.modify j (f j)).modify i (f i) := by
  apply List.ext_getElem?
  intro k
  simp only [List.getElem?_modify]
  by_cases hi : i = k
  · by_cases hj : j = k
    · obtain rfl := hi
      obtain rfl := hj
      rfl
    · simp [hj]
  · simp [hi]

theorem withReceipts_perm {order order' : List Nat} (h : order.Perm order') :
    withReceipts env job key replies order attempts =
      withReceipts env job key replies order' attempts :=
  h.foldl_eq' (fun _ _ _ _ as =>
    modify_comm (fun i => receipt env job key (replies i)) as _ _) attempts

theorem withReceipts_append :
    withReceipts env job key replies (order ++ [i]) attempts =
      (withReceipts env job key replies order attempts).modify i
      (receipt env job key (replies i)) := by
  simp [withReceipts]

/-- A competitor that has not settled is as it was. -/
theorem withReceipts_get (h : i ∉ order) :
    (withReceipts env job key replies order attempts)[i]? = attempts[i]? := by
  induction order generalizing attempts with
  | nil => rfl
  | cons j order ih =>
      rw [List.mem_cons, not_or] at h
      have hcons : withReceipts env job key replies (j :: order) attempts =
        withReceipts env job key replies order
          (attempts.modify j (receipt env job key (replies j))) := rfl
      rw [hcons, ih h.2, List.getElem?_modify]
      simp [Ne.symm h.1]

/-- The acknowledgements of the competitors named. -/
def withAcknowledgements (key : String) (replies : Nat → Reply) (order : List Nat)
    (receipts : List CreationReceipt) : List CreationReceipt :=
  order.foldl (fun rs i => nextReceipts key (replies i) rs) receipts

theorem nextReceipts_comm (key : String) (reply reply' : Reply) (receipts : List CreationReceipt) :
    nextReceipts key reply (nextReceipts key reply' receipts) =
      nextReceipts key reply' (nextReceipts key reply receipts) := by
  unfold nextReceipts
  cases reply.toBool <;> cases reply'.toBool <;> simp [acknowledge_acknowledge]

theorem withAcknowledgements_perm {order order' : List Nat} (h : order.Perm order') :
    withAcknowledgements key replies order receipts =
      withAcknowledgements key replies order' receipts :=
  h.foldl_eq' (fun _ _ _ _ rs => nextReceipts_comm key _ _ rs) receipts

theorem withAcknowledgements_append :
    withAcknowledgements key replies (order ++ [i]) receipts =
      nextReceipts key (replies i) (withAcknowledgements key replies order receipts) := by
  simp [withAcknowledgements]

theorem publicationVerdict_pending {protocol : Option Protocol} (ha : a ∈ attempts)
    (hpending : a.outcome = .pending) :
    publicationVerdict attempts protocol = .pending := by
  have hany : attempts.any (fun a => a.outcome == .pending) = true :=
    List.any_eq_true.mpr ⟨a, ha, by simp [hpending]⟩
  rw [publicationVerdict, if_pos hany]

/-! ## Settling -/

/-- No one will be judged to have won. -/
def ExportPublicationRace.Unwon (race : ExportPublicationRace) : Prop :=
  race.state = .pending ∨ race.state = .ambiguous

/-- The job has a race for the key, and it is of this kind. -/
def ExportJob.HasRace (job : ExportJob) (key : String) (kind : ExportPublicationRace → Prop) :
    Prop :=
  ∃ race, job.race key = some race ∧ kind race

/-- The race with the receipts of the competitors named. -/
def judged (env : Env) (job : ExportJob) (race : ExportPublicationRace) (replies : Nat → Reply)
    (order : List Nat) : ExportPublicationRace :=
  let attempts := withReceipts env job race.key replies order race.attempts
  { race with attempts := attempts, state := publicationVerdict attempts race.protocol }

/-- What holds while the competitors in `order` have settled; `race` is the race they
started with and `job` the job then. -/
structure Settling (env : Env) (job : ExportJob) (race : ExportPublicationRace)
    (replies : Nat → Reply) (order : List Nat) (failed : Bool) (w : World) : Prop where
  memory : ∃ current receipts, w.job = settling job current receipts ∧ current.key = race.key
  /-- without a loss the record is the memory, and both hold every receipt -/
  clean : failed = false → w.record = w.job ∧
    w.job = settling job (judged env job race replies order)
      (withAcknowledgements race.key replies order job.creationReceipts)
  /-- after a loss the record has no winner -/
  lost : failed = true → w.record.HasRace race.key ExportPublicationRace.Unwon
  proofs : w.record.ownedObjects = job.ownedObjects

theorem ExportPublicationRace.Unwon.wrote (h : race.Unwon) (job' : ExportJob) :
    (saved (withRace race races) receipts job').HasRace race.key ExportPublicationRace.Unwon :=
  ⟨race, race_setRace { job' with publicationRaces := races } job' race, h⟩

theorem judged_append :
    judged env job race replies (order ++ [i]) =
      nextRace env job race.key false i (replies i) (judged env job race replies order) := by
  simp [judged, nextRace, withReceipts_append]

theorem settling_inj {race race' : ExportPublicationRace}
    {receipts receipts' : List CreationReceipt} (hkey : race'.key = race.key)
    (h : settling job race receipts = settling job race' receipts') :
    race = race' := by
  have hrace : (settling job race' receipts').race race'.key = some race := by
    rw [← h, hkey]
    exact race_settling
  exact (Option.some.inj (race_settling.symm.trans hrace)).symm

/-- While a competitor has not settled, the record has no winner. -/
theorem Settling.unwon (h : Settling env job race replies order failed w) (hi : i ∉ order)
    (ha : race.attempts[i]? = some a) (hpending : a.outcome = .pending) :
    w.record.HasRace race.key ExportPublicationRace.Unwon := by
  cases failed with
  | true => exact h.lost rfl
  | false =>
      obtain ⟨hrecord, hjob⟩ := h.clean rfl
      rw [hrecord, hjob]
      refine ⟨_, race_settling, .inl ?_⟩
      have hget : (withReceipts env job race.key replies order race.attempts)[i]? = some a :=
        (withReceipts_get hi).trans ha
      exact publicationVerdict_pending (List.mem_of_getElem? hget) hpending

theorem settle_settling (hlength : (withRace race job.publicationRaces).length ≤ 2) (hi : i ∉ order)
    (ha : race.attempts[i]? = some a) (hpending : a.outcome = .pending)
    (h : Settling env job race replies order failed w) :
    wp (settle env race.key failed i (replies i))
      (fun failed' w' => Settling env job race replies (order ++ [i]) failed' w' ∧
        w'.sent = w.sent ∧ w'.writes = w.writes + 1 ∧
        (failed' = false ↔ failed = false ∧ env.commits w.writes = true))
      E w := by
  obtain ⟨current, receipts, hjob, hkey⟩ := h.memory
  have hlength' : (withRace current job.publicationRaces).length ≤ 2 := by
    rw [length_withRace hkey]
    exact hlength
  have hunwon := h.unwon hi ha hpending
  have hmemory {next : ExportPublicationRace} {receipts' : List CreationReceipt} :
      saved (withRace next job.publicationRaces) receipts' w.job = settling job next receipts' := by
    rw [hjob]
    rfl
  rw [← hkey]
  refine settle_spec hjob hlength' (fun hcommit => ⟨⟨?_, ?_, ?_, ?_⟩, rfl, rfl, by simp [hcommit]⟩)
    fun hlost => ⟨⟨?_, ?_, ?_, ?_⟩, rfl, rfl, by simp [hlost]⟩
  -- the write commits
  · exact ⟨_, _, hmemory, hkey⟩
  · rintro rfl
    obtain ⟨hrecord, hclean⟩ := h.clean rfl
    have hcurrent : current = judged env job race replies order :=
      settling_inj hkey.symm (hjob.symm.trans hclean)
    have hreceipts : receipts = withAcknowledgements race.key replies order job.creationReceipts :=
      congrArg ExportJob.creationReceipts (hjob.symm.trans hclean)
    refine ⟨?_, ?_⟩
    · unfold World.wrote
      rw [hrecord]
      cases env.assigns <;> rfl
    · refine hmemory.trans ?_
      subst hcurrent hreceipts
      rw [judged_append, withAcknowledgements_append]
      rfl
  · rintro rfl
    have hnext : (nextRace env job current.key true i (replies i) current).Unwon := .inr rfl
    rw [← hkey]
    unfold World.wrote
    cases env.assigns with
    | true => exact hnext.wrote _
    | false => exact hnext.wrote _
  · unfold World.wrote
    cases env.assigns with
    | true =>
        change w.job.ownedObjects = _
        rw [hjob]
        rfl
    | false => exact h.proofs
  -- the write is lost
  · unfold World.lost
    cases env.assigns with
    | true => exact ⟨_, _, hmemory, hkey⟩
    | false => exact ⟨current, receipts, hjob, hkey⟩
  · intro hf
    cases hf
  · exact fun _ => hunwon
  · exact h.proofs

theorem settleAll_settling {order rest : List Nat}
    (hlength : (withRace race job.publicationRaces).length ≤ 2) (hnodup : (order ++ rest).Nodup)
    (hpending : ∀ i ∈ rest, ∃ a, race.attempts[i]? = some a ∧ a.outcome = .pending)
    (h : Settling env job race replies order failed w) :
    wp (settleAll env race.key replies rest failed)
      (fun failed' w' => Settling env job race replies (order ++ rest) failed' w' ∧
        w'.sent = w.sent ∧ w'.writes = w.writes + rest.length ∧
        (failed' = false ↔ failed = false ∧ ∀ j < rest.length, env.commits (w.writes + j) = true))
      E w := by
  induction rest generalizing order failed w with
  | nil =>
      rw [List.append_nil]
      exact ⟨h, rfl, rfl, by simp⟩
  | cons i rest ih =>
      have hi : i ∉ order := fun hmem =>
        (List.nodup_append.mp hnodup).2.2 i hmem i List.mem_cons_self rfl
      obtain ⟨a, ha, houtcome⟩ := hpending i List.mem_cons_self
      rw [settleAll]
      refine (settle_settling hlength hi ha houtcome h).bind ?_
      rintro failed' w₁ ⟨h₁, hsent, hwrites, hfailed⟩
      rw [List.append_cons] at hnodup
      refine (ih hnodup (fun j hj => hpending j (List.mem_cons_of_mem i hj)) h₁).mono ?_
        fun _ _ he => he
      rintro failed'' w₂ ⟨h₂, hsent', hwrites', hfailed'⟩
      rw [List.append_cons]
      refine ⟨h₂, hsent'.trans hsent, ?_, ?_⟩
      · rw [hwrites', hwrites, List.length_cons]
        omega
      · rw [hfailed', hfailed, List.length_cons, Nat.forall_lt_succ_left', hwrites, and_assoc]
        simp only [Nat.add_right_comm, Nat.add_assoc, Nat.add_zero]

/-- Without a loss the order of settling leaves no trace. -/
theorem settleAll_perm {order order' : List Nat}
    (hlength : (withRace race job.publicationRaces).length ≤ 2) (hnodup : order.Nodup)
    (hpending : ∀ i ∈ order, ∃ a, race.attempts[i]? = some a ∧ a.outcome = .pending)
    (h : Settling env job race replies [] false w) (hperm : order.Perm order')
    (hcommits : ∀ n, env.commits n = true) :
    settleAll env race.key replies order false w =
      settleAll env race.key replies order' false w := by
  have hend {rest : List Nat} (hrest : order.Perm rest) :
      settleAll env race.key replies rest false w = .ok false
        { job := settling job (judged env job race replies order)
            (withAcknowledgements race.key replies order job.creationReceipts)
          record := settling job (judged env job race replies order)
            (withAcknowledgements race.key replies order job.creationReceipts)
          sent := w.sent
          writes := w.writes + order.length } := by
    obtain ⟨failed, w', heq, h', hsent, hwrites, hfailed⟩ :=
      (settleAll_settling hlength (by simpa using hrest.nodup hnodup)
        (fun i hi => hpending i (hrest.mem_iff.mpr hi)) h).returns
    obtain rfl : failed = false := hfailed.mpr ⟨rfl, fun j _ => hcommits _⟩
    obtain ⟨hrecord, hjob⟩ := h'.clean rfl
    rw [List.nil_append] at hjob
    have hsame : judged env job race replies rest = judged env job race replies order := by
      rw [judged, judged, withReceipts_perm hrest]
    have hworld : w' = ⟨w'.job, w'.record, w'.sent, w'.writes⟩ := rfl
    rw [heq, hworld, hrecord, hjob, hsame, withAcknowledgements_perm hrest, hsent,
      hwrites, hrest.length_eq]
  rw [hend (.refl _), hend hperm]

/-! ## Opening -/

def setUploads (ownedUploads : List OwnedUpload) (job : ExportJob) : ExportJob :=
  { job with ownedUploads := ownedUploads }

theorem absent_keeps (key : String) :
    wp (absent env job key) (fun _ w' => w'.job = w.job ∧ w'.record = w.record)
      (fun _ w' => w'.record = w.record) w := by
  unfold absent
  rw [wp_bind, wp_observe]
  refine wp_scoped (fun key => .headObject key none) (fun output => rfl) (fun error e he => ?_)
    fun e he => ?_
  · change wp (if _ then _ else _) _ _ _
    rw [wp_ite]
    exact ⟨fun _ => ⟨rfl, rfl⟩, fun _ => rfl⟩
  · change wp (if _ then _ else _) _ _ _
    rw [wp_ite]
    exact ⟨fun _ => ⟨rfl, rfl⟩, fun _ => rfl⟩

/-- An upload changes nothing of the job and its record but the uploads. -/
theorem multipart_spec {bodies : List (List UInt8)} (hsame : w.record = w.job) :
    wp (multipart env key bodies)
      (fun _ w' => w'.record = w'.job ∧ ∃ uploads, w'.job = setUploads uploads w.job)
      (fun _ w' => ∃ uploads, w'.record = setUploads uploads w.record) w := by
  have hkept : ∃ uploads, w.record = setUploads uploads w.record := ⟨w.record.ownedUploads, rfl⟩
  unfold multipart
  rw [wp_bind, wp_currentJob, wp_bind, wp_ofExcept]
  refine ⟨fun key _ => ?_, fun _ _ => hkept⟩
  rw [wp_bind]
  refine wp_send (fun created => ?_) fun _ _ _ => hkept
  rw [wp_bind, wp_refuseIf]
  refine ⟨fun _ => hkept, fun _ => ?_⟩
  dsimp only
  generalize w.job.ownedUploads ++ [{ key := key, uploadId := created.UploadId.getD "" }] = uploads
  rw [wp_bind, wp_assign, wp_bind]
  refine (wp_update_same rfl).mpr ⟨fun _ => ?_, fun _ => hkept⟩
  have hrecord :
      ((World.noted (setUploads uploads)
        (w.push (.createMultipartUpload key) (.ok created))).wrote env
      (setUploads uploads)).record = setUploads uploads w.job := by
    unfold World.wrote World.noted
    cases env.assigns with
    | true => rfl
    | false =>
        change setUploads uploads w.record = _
        rw [hsame]
  refine EStateM.wp.bind (wp_forM (I := fun s => s.record = setUploads uploads w.job ∧
    s.job = setUploads uploads w.job) ?_ ⟨hrecord, rfl⟩) ?_
  · rintro ⟨body, index⟩ _ s ⟨hs, hs'⟩
    rw [wp_bind]
    refine wp_send (fun part => ?_) fun _ _ _ => ⟨uploads, hsame ▸ hs⟩
    rw [wp_refuseIf]
    exact ⟨fun _ => ⟨uploads, hsame ▸ hs⟩, fun _ => ⟨hs, hs'⟩⟩
  · rintro _ s ⟨hs, hs'⟩
    exact ⟨hs.trans hs'.symm, uploads, hs'⟩

/-- The race as it is opened on the job with these uploads. -/
def openedRace (env : Env) (job : ExportJob) (bodies : Bodies) (includePut : Bool) (a b : String) :
    ExportPublicationRace :=
  freshRace env job (raceKey job includePut) (raceAttempts env bodies includePut a b)

theorem openRace_spec (env : Env) (job : ExportJob) (bodies : Bodies) (includePut : Bool) :
    wp (openRace env bodies includePut)
      (fun _ w' => ∃ uploads a b, w'.record = w'.job ∧
        w'.job = settling (setUploads uploads job) (openedRace env job bodies includePut a b)
          job.creationReceipts ∧
        (withRace (openedRace env job bodies includePut a b) job.publicationRaces).length ≤ 2)
      (fun _ w' => ∃ uploads, w'.record = setUploads uploads job) (World.start job) := by
  unfold openRace
  rw [wp_bind, wp_currentJob]
  refine ((absent_keeps _).mono (fun _ _ h => h) fun _ w' h => ⟨job.ownedUploads, h⟩).bind ?_
  rintro _ w₁ ⟨hjob₁, hrecord₁⟩
  have hsame₁ : w₁.record = w₁.job := hrecord₁.trans hjob₁.symm
  refine ((multipart_spec hsame₁).mono (fun _ _ h =>
    h) fun _ w' h => by rwa [hrecord₁] at h).bind ?_
  rintro a w₂ ⟨hsame₂, uploads₂, hjob₂⟩
  rw [hjob₁] at hjob₂
  refine ((multipart_spec hsame₂).mono (fun _ _ h => h) fun _ w' h => ?_).bind ?_
  · rw [hsame₂, hjob₂] at h
    exact h
  rintro b w₃ ⟨hsame₃, uploads, hjob₃⟩
  rw [hjob₂] at hjob₃
  rw [wp_bind, wp_currentJob]
  unfold saveRace
  rw [wp_bind, wp_currentJob, wp_bind, wp_refuseIf, hjob₃]
  have hrace : freshRace env (setUploads uploads (setUploads uploads₂ (World.start job).job))
      (raceKey (World.start job).job includePut) (raceAttempts env bodies includePut a b) =
      openedRace env job bodies includePut a b := rfl
  rw [hrace]
  refine ⟨fun _ => ⟨uploads, by rw [hsame₃, hjob₃]; rfl⟩, fun hquota => ?_⟩
  refine (wp_journal
    (saved (withRace (openedRace env job bodies includePut a b) job.publicationRaces)
    job.creationReceipts) fun _ => rfl).mpr ⟨fun _ => ⟨uploads, a, b, ?_, ?_, ?_⟩, fun _ => ?_⟩
  · unfold World.wrote
    rw [hsame₃]
    cases env.assigns <;> rfl
  · change saved _ _ w₃.job = _
    rw [hjob₃]
    rfl
  · exact Nat.not_lt.mp (of_decide_eq_false hquota)
  · exact ⟨uploads, by rw [World.lost, hsame₃, hjob₃]; rfl⟩

theorem outcome_raceAttempts {bodies : Bodies} {includePut : Bool} {a b : String}
    (hi : i < if includePut then 3 else 2) :
    ∃ attempt, (raceAttempts env bodies includePut a b)[i]? = some attempt ∧
      attempt.outcome = .pending := by
  cases includePut with
  | true =>
      match i, hi with
      | 0, _ => exact ⟨_, rfl, rfl⟩
      | 1, _ => exact ⟨_, rfl, rfl⟩
      | 2, _ => exact ⟨_, rfl, rfl⟩
  | false =>
      match i, hi with
      | 0, _ => exact ⟨_, rfl, rfl⟩
      | 1, _ => exact ⟨_, rfl, rfl⟩

theorem settling_opened {uploads : List OwnedUpload} {bodies : Bodies} {includePut : Bool}
    {a b : String} (hsame : w.record = w.job)
    (hjob : w.job = settling (setUploads uploads job) (openedRace env job bodies includePut a b)
      job.creationReceipts) :
    Settling env (setUploads uploads job)
      (openedRace env job bodies includePut a b) replies [] false w := by
  have hverdict : publicationVerdict (openedRace env job bodies includePut a b).attempts
      (openedRace env job bodies includePut a b).protocol = .pending := by
    have hfirst : 0 < if includePut then 3 else 2 := by cases includePut <;> decide
    obtain ⟨attempt, hget, hpending⟩ := outcome_raceAttempts hfirst
    exact publicationVerdict_pending (List.mem_of_getElem? hget) hpending
  have hjudged :
      judged env (setUploads uploads job) (openedRace env job bodies includePut a b) replies [] =
      openedRace env job bodies includePut a b := by
    have hsame :
        judged env (setUploads uploads job) (openedRace env job bodies includePut a b) replies [] =
        { openedRace env job bodies includePut a b with
          state := publicationVerdict (openedRace env job bodies includePut a b).attempts
            (openedRace env job bodies includePut a b).protocol } := rfl
    rw [hsame, hverdict]
    rfl
  refine ⟨⟨_, _, hjob, rfl⟩, fun _ => ⟨hsame, ?_⟩, (fun h => by cases h), ?_⟩
  · rw [hjudged]
    exact hjob
  · rw [hsame, hjob]
    rfl

end Pluton.WriteOnce
