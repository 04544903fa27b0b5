-- SUMMARY: The publication race and the cleanup of the write-once storage, step by step.
import Pluton.WriteOnce.Storage

/-!
# Race and cleanup

`publicationRace` starts every competitor before it waits for one of them, so a race is
an order in which the competitors settle and an answer for each. A competitor settles
without an interruption: it reads the race from the job, adds its receipt and saves it.
`cleanup` deletes what the record proves to be the job's own.
-/
namespace Pluton.WriteOnce

variable (env : Env)

open EStateM

/-! ## Starting a race -/

/-- `multipart`: an upload with its parts sent, not yet completed. -/
def multipart (key : String) (bodies : List (List UInt8)) : Prog String := do
  let job ← currentJob
  let key ← ofExcept (scope env job key)
  let created ← send env (.createMultipartUpload key)
  refuseIf (blank created.UploadId || 8 ≤ job.ownedUploads.length)
    (.temporary .securityCapabilityMissing)
  let uploadId := created.UploadId.getD ""
  let ownedUploads := job.ownedUploads ++ [{ key := key, uploadId := uploadId }]
  assign fun job => { job with ownedUploads := ownedUploads }
  update env fun job => { job with ownedUploads := ownedUploads }
  bodies.zipIdx.forM fun (body, index) => do
    let part ← send env (.uploadPart key uploadId (index + 1) body)
    refuseIf (blank part.ETag) (.temporary .securityCapabilityMissing)
  pure uploadId

def raceKey (job : ExportJob) (includePut : Bool) : String :=
  job.key ++ (if includePut then ".probe-put-race" else ".probe-race")

/-- The bodies of the competitors: `[data, other, tail]`. -/
structure Bodies where
  data : List UInt8
  other : List UInt8
  tail : List UInt8

/-- The competitors of a race before any of them has settled. -/
def raceAttempts (bodies : Bodies) (includePut : Bool) (a b : String) :
    List ExportPublicationAttempt :=
  [{ competitor := .multipartA, operation := .completeMultipartUpload, bytes := bodies.data.length
     sha256 := env.sha bodies.data, uploadId := some a },
   { competitor := .multipartB, operation := .completeMultipartUpload, bytes := bodies.other.length
     sha256 := env.sha bodies.other, uploadId := some b }] ++
  if includePut then
    [{ competitor := .put, operation := .putObject, bytes := bodies.tail.length
       sha256 := env.sha bodies.tail }]
  else []

/-- The intent of a race, with no receipt yet. -/
def freshRace (job : ExportJob) (key : String) (attempts : List ExportPublicationAttempt) :
    ExportPublicationRace where
  key := key
  protocol := if applicationEncrypted job then some .hcpFinalErrorV1 else none
  binding := bindingDigest env.sha job.binding
  destination := job.destination
  nonce := job.ownershipNonce.getD ""
  state := .pending
  attempts := attempts

/-- `publicationRace` up to the journaled intent. -/
def openRace (bodies : Bodies) (includePut : Bool) : Prog Unit := do
  let job ← currentJob
  let key := raceKey job includePut
  absent env job key
  let a ← multipart env key [bodies.data]
  let b ← multipart env key [bodies.other]
  let job ← currentJob
  saveRace env (freshRace env job key (raceAttempts env bodies includePut a b))

/-! ## Settling -/

/-- What a competitor's request ends with. -/
abbrev Reply := Except Failure PublicationResult

/-- `value || undefined`, for a count. -/
def nonzero (n : Option Nat) : Option Nat := n.filter (· != 0)

/-- The receipt of a competitor: `settle(i, ..)` of `execute`. -/
def receipt (job : ExportJob) (key : String) (reply : Reply) (a : ExportPublicationAttempt) :
    ExportPublicationAttempt :=
  match reply with
  | .error error =>
      let own : Option ExportOperationError :=
        match error with
        | .operation inner => some inner
        | _ => none
      { a with
        outcome := .rejected
        httpStatus := error.exportHttpStatus
        wireHttpStatus := own.bind (·.wireHttpStatus)
        response :=
          match own with
          | some inner => inner.responseKind
          | none => some .transportError
        completion := own.bind (·.completionShape)
        requestAttempts := nonzero (own.bind (·.requestAttempts))
        failure := some
          { exportDiagnostic error job .preflight a.operation with
            creationAcknowledged := false, durableOwnershipProof := false } }
  | .ok result =>
      let multipart := a.operation == .completeMultipartUpload
      let validation := publicationChecks result env.bucket key multipart
      { a with
        outcome := .acknowledged
        httpStatus := httpStatus result.httpStatusCode
        wireHttpStatus := if multipart then result.exportWireHttpStatus else none
        completion := if multipart then result.exportCompletionShape else none
        requestAttempts := nonzero
          (if multipart then result.exportCompletionShape.bind (·.requestAttempts)
            else result.attempts)
        etag := if validation.valid then result.ETag else none
        validResponse := some validation.valid
        validation := some validation
        response := if validation.valid then some .success else some .invalidResponse }

/-- A competitor settles; is the journal still complete? `failed` is `journalFailed`. -/
def settle (key : String) (failed : Bool) (i : Nat) (reply : Reply) : Prog Bool := do
  let job ← currentJob
  match job.race key with
  | none => pure failed
  | some current =>
      let attempts := current.attempts.modify i (receipt env job key reply)
      let next :=
        { current with
          attempts := attempts
          state := if failed then .ambiguous else publicationVerdict attempts current.protocol }
      -- `Promise.allSettled` hides the error; only the flag survives it
      match ← observe (saveRace env next reply.toBool) with
      | .ok _ => pure failed
      | .error _ => pure true

/-- The competitors settle in the order given. -/
def settleAll (key : String) (replies : Nat → Reply) : List Nat → Bool → Prog Bool
  | [], failed => pure failed
  | i :: order, failed => do
      let failed ← settle env key failed i (replies i)
      settleAll key replies order failed

/-! ## Concluding -/

/-- Only a rejected competitor's upload is aborted. -/
def abortRejected (job : ExportJob) (key uploadId : String) (outcome : Outcome) : Prog Bool :=
  if outcome == .rejected then abortUpload env job key uploadId else pure false

/-- One competitor of `settleRaceUploads`. -/
def settleRaceUpload (race : ExportPublicationRace) (attempt : ExportPublicationAttempt) :
    Prog Unit := do
  let job ← currentJob
  refuseIf (!tracked job race.key attempt.uploadId) (.temporary .cleanupPending)
  let uploadId := attempt.uploadId.getD ""
  let abortAcknowledged ← abortRejected env job race.key uploadId attempt.outcome
  partsAbsent env job race.key uploadId (exportTarget race.key)
  match job.race race.key with
  | none => throw (.provider { name := some "TypeError" })
  | some current => saveRace env (markAbsent uploadId abortAcknowledged current)

/-- `settleRaceUploads` -/
def settleRaceUploads (race : ExportPublicationRace) : Prog Unit := do
  (race.attempts.filter fun a => a.operation == .completeMultipartUpload).forM
    (settleRaceUpload env race)
  assertRaceUploadsAbsent env race

/-- Why a race has no candidate. -/
def ambiguity (attempts : List ExportPublicationAttempt) : Detail :=
  if 1 < (attempts.filter fun a =>
    a.outcome == .acknowledged && a.validResponse == some true).length then
    .raceMultipleSuccesses
  else if 1 < (attempts.filter fun a => a.outcome == .acknowledged).length then
    .raceMultipleAcknowledgements
  else if attempts.any fun a => a.response == some .invalidResponse then .raceResponseInvalid
  else .raceAmbiguous

/-- `race.state = 'ambiguous'`, on the race in memory only. -/
def spoil (key : String) (job : ExportJob) : ExportJob :=
  { job with
    publicationRaces := job.publicationRaces.map fun r =>
      if r.key == key then { r with state := .ambiguous } else r }

/-- The proof of a winner, and the race verified with it. -/
def recordWinner (race : ExportPublicationRace) (winner : ExportPublicationAttempt) : Prog Unit :=
  do
  record env race.key winner.etag winner.httpStatus winner.bytes winner.sha256
  saveRace env { race with state := .verified }

/-- Turn the winner of a race into a proof of ownership. -/
def proveWinner (key : String) : Prog Unit := do
  let job ← currentJob
  match job.race key with
  | none => throw (.provider { name := some "TypeError" })
  | some settled =>
      match publicationWinner env.sha job settled with
      | none => throw (.temporary .objectMismatch)
      | some winner => recordWinner env settled winner

/-- `publicationRace` after every competitor has settled. -/
def concludeRace (key : String) (failed : Bool) : Prog Unit := do
  let job ← currentJob
  match job.race key with
  | none => throw (.provider { name := some "TypeError" })
  | some race =>
      if failed then
        assign (spoil key)
        throw (refusedBare .ownershipProof .raceJournalFailed .objectMismatch (exportTarget key))
      else if (publicationCandidate env.sha job race).isNone then
        throw (refusedBare .completeMultipartUpload (ambiguity race.attempts) .objectMismatch
          (exportTarget key))
      else if race.protocol == some .hcpFinalErrorV1 then
        settleRaceUploads env race
        proveWinner env key
      else proveWinner env key

/-- `publicationRace`, with the order in which the competitors settle and what each of
their requests ends with. -/
def publicationRace (bodies : Bodies) (includePut : Bool) (replies : Nat → Reply)
    (order : List Nat) : Prog Unit :=
  do
  let key := raceKey (← currentJob) includePut
  openRace env bodies includePut
  let failed ← settleAll env key replies order false
  concludeRace env key failed

/-! ## Cleanup -/

/-- Does the listing name an upload of these keys that the job does not own? -/
def unknownUpload (job : ExportJob) (listing : Output) : Bool :=
  (listing.Uploads.getD []).any fun u =>
    (writeOnceKeys job).any (fun key => u.Key == some key) &&
      !job.ownedUploads.any fun p => u.Key == some p.key && u.UploadId == some p.uploadId

/-- Does the listing name an upload of these keys? -/
def remainingUpload (job : ExportJob) (listing : Output) : Bool :=
  (listing.Uploads.getD []).any fun u => (writeOnceKeys job).any fun key => u.Key == some key

/-- One upload of the cleanup: aborted, gone, and noted in its race. -/
def cleanupUpload (upload : OwnedUpload) : Prog Unit := do
  let job ← currentJob
  refuseIf (!(writeOnceKeys job).contains upload.key) (.temporary .cleanupPending)
  let abortAcknowledged ← abortUpload env job upload.key upload.uploadId
  partsAbsent env job upload.key upload.uploadId .unknown
  match job.race upload.key with
  | none => pure ()
  | some race => saveRace env (markAbsent upload.uploadId abortAcknowledged race)

/-- A race that could prove ownership must have no visible upload. -/
def cleanupRace (race : ExportPublicationRace) : Prog Unit := do
  let job ← currentJob
  if race.protocol == some .hcpFinalErrorV1 && (publicationCandidate env.sha job race).isSome then
    assertRaceUploadsAbsent env race
  else pure ()

/-- The ownership of a present object, from its race where it has one. -/
def proveOwnership (key : String) (observed : Output) : Prog Unit := do
  let job ← currentJob
  match job.race key with
  | none => pure ()
  | some race =>
      match publicationWinner env.sha job race with
      | none =>
          throw (refused .ownershipProof observed .raceAmbiguous .cleanupPending (exportTarget key))
      | some winner =>
          if (job.proof key).isNone then recordWinner env race winner else pure ()

/-- A present object is deleted only behind its proof. -/
def deleteOwned (key : String) (observed : Output) : Prog Unit := do
  proveOwnership env key observed
  let job ← currentJob
  match job.proof key with
  | none =>
      throw (refused .ownershipProof observed .ownershipProofMissing .cleanupPending
        (exportTarget key))
  | some verifiedProof =>
      refuseIf (blank job.ownershipNonce)
        (refused .ownershipProof observed .ownershipProofMissing .cleanupPending (exportTarget key))
      readback env job key
      let _ ← head env job key
      unversioned env
      let key ← ofExcept (scope env job key)
      let _ ← send env (.deleteObject key
        (if job.cleanupEvidence == some .conditionalEtag then some verifiedProof.etag else none))
      absent env job key

/-- One key of the cleanup. -/
def cleanupKey (key : String) : Prog Unit := do
  let job ← currentJob
  match ← observe (do
      let key ← ofExcept (scope env job key)
      send env (.headObject key none)) with
  | .error e => if e.absent then pure () else throw e
  | .ok observed => deleteOwned env key observed

/-- `job.cleanupState!.multipart = value` -/
def setMultipart (value : Absence) (job : ExportJob) : ExportJob :=
  { job with cleanupState := job.cleanupState.map fun state => { state with multipart := value } }

def setCleanupState (state : Option CleanupState) (job : ExportJob) : ExportJob :=
  { job with cleanupState := state }

/-- `performCleanup` up to the first written state: the uploads. -/
def cleanupMultipart : Prog Unit := do
  unversioned env
  let job ← currentJob
  let pending ← send env (.listMultipartUploads job.key)
  refuseIf (pending.IsTruncated == some true)
    (refused .listMultipartUploads pending .listingIncomplete .cleanupPending .unknown)
  refuseIf (unknownUpload job pending)
    (refused .listMultipartUploads pending .unknownMultipart .cleanupPending .unknown)
  job.ownedUploads.forM (cleanupUpload env)
  let job ← currentJob
  job.publicationRaces.forM (cleanupRace env)
  assign (setMultipart .verifiedAbsent)
  let job ← currentJob
  update env (setCleanupState job.cleanupState)

/-- The end of `performCleanup`: nothing of the job is left. -/
def confirmAbsence : Prog Unit := do
  let job ← currentJob
  let remaining ← send env (.listMultipartUploads job.key)
  if remaining.IsTruncated == some true || remainingUpload job remaining then
    assign (setMultipart .unverified)
    throw (refused .listMultipartUploads remaining .multipartRemains .cleanupPending .unknown)
  else
    unversioned env
    let state := some { objects := .verifiedAbsent, multipart := .verifiedAbsent }
    assign (setCleanupState state)
    update env (setCleanupState state)

/-- `performCleanup` -/
def performCleanup : Prog Unit := do
  cleanupMultipart env
  let job ← currentJob
  (writeOnceKeys job).forM (cleanupKey env)
  confirmAbsence env

/-- The fields of a failed cleanup. -/
def setCleanupFailure (first diagnostic : ExportDiagnostic) (state : Option CleanupState)
    (job : ExportJob) : ExportJob :=
  { job with
    cleanupFailure := some first
    lastCleanupFailure := some diagnostic
    cleanupState := state }

/-- `cleanup` -/
def cleanup : Prog Unit := do
  assign (setCleanupState (some { objects := .unverified, multipart := .unverified }))
  match ← observe (performCleanup env) with
  | .ok _ => pure ()
  | .error error =>
      let job ← currentJob
      let diagnostic := exportDiagnostic error job .cleanup
      let fields :=
        setCleanupFailure (job.cleanupFailure.getD diagnostic) diagnostic job.cleanupState
      assign fields
      update env fields
      throw (.cleanup diagnostic)

end Pluton.WriteOnce
