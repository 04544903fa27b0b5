-- SUMMARY: Publication races of a write-once export: their receipts, and who is judged to have won.
import Pluton.WriteOnce.Diagnostics

/-!
# Publication races

`ExportPublication.ts` and the part of a job record it reads. A race is judged from
its recorded receipts alone: once when the last competitor settles
(`publicationVerdict`) and again whenever the record is used to prove ownership
(`publicationCandidate`, `publicationWinner`).
-/
namespace Pluton.WriteOnce

inductive Competitor
  | multipartA
  | multipartB
  | put
  deriving DecidableEq

inductive Outcome
  | pending
  | acknowledged
  | rejected
  deriving DecidableEq

inductive RaceState
  | pending
  | singleWinner
  | ambiguous
  | verified
  deriving DecidableEq

/-- The only protocol: `hcp-final-error-v1`. -/
inductive Protocol
  | hcpFinalErrorV1
  deriving DecidableEq

inductive IntegrityMode
  | versioned
  | hcpWriteOnce
  | applicationEncryptedHcp
  deriving DecidableEq

structure PublicationValidation where
  status200 : Bool
  entityTagPresent : Bool
  entityTagQuoted : Bool
  versionAbsentOrNull : Bool
  objectIdentityRequired : Bool
  bucketPresent : Bool
  bucketMatches : Bool
  keyPresent : Bool
  keyMatches : Bool
  deriving DecidableEq

structure ExportPublicationAttempt where
  competitor : Competitor
  operation : Operation
  bytes : Nat
  sha256 : String
  uploadId : Option String := none
  outcome : Outcome := .pending
  response : Option PublicationResponse := none
  completion : Option CompletionShape := none
  etag : Option String := none
  validResponse : Option Bool := none
  validation : Option PublicationValidation := none
  httpStatus : Option Nat := none
  wireHttpStatus : Option Nat := none
  requestAttempts : Option Nat := none
  failure : Option ExportDiagnostic := none
  uploadAbsent : Option Bool := none
  abortAcknowledged : Option Bool := none
  deriving DecidableEq

structure ExportPublicationRace where
  protocol : Option Protocol
  key : String
  binding : String
  destination : String
  nonce : String
  state : RaceState
  attempts : List ExportPublicationAttempt
  deriving DecidableEq

structure CreationReceipt where
  key : String
  acknowledged : Bool

structure OwnedUpload where
  key : String
  uploadId : String

/-- The proof of a creation: what permits a deletion. -/
structure OwnedObject where
  key : String
  etag : String
  bytes : Nat
  sha256 : String
  created : String

inductive Absence
  | unverified
  | verifiedAbsent
  deriving DecidableEq

structure CleanupState where
  objects : Absence
  multipart : Absence

/-- `providerEvidence.cleanup` -/
inductive CleanupEvidence
  | conditionalEtag
  | exclusivePrefixBounded
  deriving DecidableEq

/-- The part of `ExportJob` that the write-once storage reads and writes. An absent
list and an empty one are treated alike everywhere; `binding` is its JSON text. -/
structure ExportJob where
  id : String
  key : String
  binding : String
  destination : String
  integrityMode : Option IntegrityMode
  ownershipNonce : Option String
  cleanupEvidence : Option CleanupEvidence := none
  publicationRaces : List ExportPublicationRace := []
  creationReceipts : List CreationReceipt := []
  ownedUploads : List OwnedUpload := []
  ownedObjects : List OwnedObject := []
  cleanupState : Option CleanupState := none
  cleanupFailure : Option ExportDiagnostic := none
  lastCleanupFailure : Option ExportDiagnostic := none

def applicationEncrypted (job : ExportJob) : Bool :=
  job.integrityMode == some .applicationEncryptedHcp

def isWriteOnce (mode : Option IntegrityMode) : Bool :=
  mode == some .hcpWriteOnce || mode == some .applicationEncryptedHcp

def writeOnceKeys (job : ExportJob) : List String :=
  [job.key, job.key ++ ".probe", job.key ++ ".probe-race", job.key ++ ".probe-put-race"]

/-- `job.ownedObjects?.find(p => p.key === key)` -/
def ExportJob.proof (job : ExportJob) (key : String) : Option OwnedObject :=
  job.ownedObjects.find? (·.key == key)

/-- `job.publicationRaces?.find(r => r.key === key)` -/
def ExportJob.race (job : ExportJob) (key : String) : Option ExportPublicationRace :=
  job.publicationRaces.find? (·.key == key)

/-- `!value`, for an optional text. -/
def blank (value : Option String) : Bool := value.getD "" == ""

/-- `!value || value === 'null'`, for a version. -/
def versionAbsentOrNull (value : Option String) : Bool := blank value || value == some "null"

/-- `exportDiagnostic`; `operation` is for a failure that names none. -/
def exportDiagnostic (error : Failure) (job : ExportJob) (stage : Stage)
    (operation : Operation := .unknown) : ExportDiagnostic :=
  match error with
  | .cleanup diagnostic => { diagnostic with stage := stage }
  | _ =>
      let own : Option ExportOperationError :=
        match error with
        | .operation inner => some inner
        | _ => none
      let target := (own.map (·.target)).getD .unknown
      let key : Option String :=
        match target with
        | .archive => some job.key
        | .probe => some (job.key ++ ".probe")
        | .race => some (job.key ++ ".probe-race")
        | .putRace => some (job.key ++ ".probe-put-race")
        | _ => none
      { stage := stage
        operation := (own.map (·.operation)).getD operation
        target := target
        providerCategory := error.providerCategory
        providerCode := error.providerCode
        detail := (own.map (·.detail)).getD .providerError
        completion := publicCompletionShape (own.bind (·.completionShape))
        httpStatus := error.exportHttpStatus
        creationAcknowledged :=
          !blank key && job.creationReceipts.any fun r => some r.key == key && r.acknowledged
        durableOwnershipProof := !blank key && job.ownedObjects.any fun p => some p.key == key
        objectCleanupPending := (job.cleanupState.map (·.objects)) != some .verifiedAbsent
        multipartCleanupPending := (job.cleanupState.map (·.multipart)) != some .verifiedAbsent }

/-! ## Judging an answer -/

/-- `/^"[^"\r\n]{1,1022}"$/` -/
def entityTagQuoted (text : String) : Bool :=
  match text.toList with
  | '"' :: rest =>
      match rest.reverse with
      | '"' :: inner =>
          inner.all (fun ch => ch != '"' && ch != '\r' && ch != '\n') &&
            decide (1 ≤ Js.length (String.ofList inner)) &&
            decide (Js.length (String.ofList inner) ≤ 1022)
      | _ => false
  | _ => false

/-- The answer to a completion or a put, with what the storage reads of it. -/
structure PublicationResult where
  httpStatusCode : Option Nat := none
  attempts : Option Nat := none
  ETag : Option String := none
  VersionId : Option String := none
  Bucket : Option String := none
  Key : Option String := none
  exportWireHttpStatus : Option Nat := none
  exportCompletionShape : Option CompletionShape := none

/-- The checks of `publicationValidation`. -/
def publicationChecks (result : PublicationResult) (bucket key : String) (multipart : Bool) :
    PublicationValidation where
  status200 := result.httpStatusCode == some 200
  entityTagPresent := !blank result.ETag
  entityTagQuoted := result.ETag.any entityTagQuoted
  versionAbsentOrNull := versionAbsentOrNull result.VersionId
  objectIdentityRequired := multipart
  bucketPresent := !blank result.Bucket
  bucketMatches := result.Bucket == some bucket
  keyPresent := !blank result.Key
  keyMatches := result.Key == some key

/-- `publicationValidation(..).valid` -/
def PublicationValidation.valid (checks : PublicationValidation) : Bool :=
  checks.status200 && checks.entityTagQuoted && checks.versionAbsentOrNull &&
    (!checks.objectIdentityRequired || (checks.bucketMatches && checks.keyMatches))

/-! ## Judging a race -/

/-- A completion that was answered 200 and whose body is a verified final
`OperationAborted`. -/
def finalConflict (a : ExportPublicationAttempt) : Bool :=
  a.operation == .completeMultipartUpload && a.outcome == .rejected &&
    a.validResponse != some true &&
    a.etag.isNone && (a.failure.map (·.operation)) == some .completeMultipartUpload &&
    a.httpStatus == some 200 && a.wireHttpStatus == some 200 &&
    a.response == some .embeddedError &&
    (a.failure.map (·.providerCode)) == some .operationAborted &&
    a.completion.any fun c =>
      c.body == .complete && c.xml == .error && c.xmlParser == .accepted &&
        c.sdkParser == .notRun &&
        [CompletionNamespace.none, .s3, .hcp].contains c.xmlNamespace &&
        !c.entityTagPresent && !c.bucketPresent && !c.keyPresent && c.identityUnique &&
        c.operationAbortedVerified == some true && c.requestAttempts == some 1 &&
        c.replayBlocked == some false

/-- A competitor that was refused with a 409 of the provider. -/
def rejectedConflict (protocol : Option Protocol) (a : ExportPublicationAttempt) : Bool :=
  a.outcome == .rejected && a.httpStatus == some 409 && a.response == some .providerError &&
    (a.wireHttpStatus.isNone || a.wireHttpStatus == some 409) &&
    (protocol != some .hcpFinalErrorV1 ||
      (a.failure.map (·.providerCode)) == some .operationAborted)

/-- The winner's own body, where a conflict was told by a body. -/
def completeResult (completion : Option CompletionShape) : Bool :=
  completion.any fun c =>
    c.body == .complete && c.xml == .result && c.xmlParser == .accepted &&
      c.sdkParser == .resolved &&
      c.entityTagPresent && c.bucketPresent && c.keyPresent && c.identityUnique

def replayed (a : ExportPublicationAttempt) : Bool :=
  (a.completion.bind (·.replayBlocked)) == some true || a.requestAttempts.any (· != 1)

/-- `publicationVerdict`. The source compares the other competitors with the winner by
reference; with one winner that is the comparison by value. -/
def publicationVerdict (attempts : List ExportPublicationAttempt) (protocol : Option Protocol) :
    RaceState :=
  if attempts.any fun a => a.outcome == .pending then .pending
  else if attempts.any replayed then .ambiguous
  else
    let semantic := protocol == some .hcpFinalErrorV1 && attempts.any finalConflict
    match attempts.filter fun a => a.outcome == .acknowledged with
    | [winner] =>
        if winner.validResponse == some true &&
            (!semantic || attempts.all fun a => a.requestAttempts == some 1) &&
            (!semantic || winner.operation == .putObject || completeResult winner.completion) &&
            attempts.all fun a =>
              a == winner || rejectedConflict protocol a || (semantic && finalConflict a)
        then .singleWinner
        else .ambiguous
    | _ => .ambiguous

/-- `/^[a-f0-9]{64}$/` -/
def isSha256 (text : String) : Bool :=
  text.toList.length == 64 && text.toList.all fun ch =>
    ('a' ≤ ch && ch ≤ 'f') || ('0' ≤ ch && ch ≤ '9')

section
-- the hex digest of `crypto.createHash('sha256')`
variable (sha : List UInt8 → String)

def bindingDigest (binding : String) : String := sha binding.toUTF8.toList

/-- The intent that is written before a race starts. -/
def intended (competitor : Option Competitor) (a : ExportPublicationAttempt) : Bool :=
  some a.competitor == competitor &&
    a.operation == (if competitor == some .put then .putObject else .completeMultipartUpload) &&
    1 ≤ a.bytes && a.bytes ≤ 1024 && isSha256 a.sha256

def competitors : List Competitor := [.multipartA, .multipartB, .put]

/-- The winner's recorded validation and the uploads of the race, as the protocol
asks for them. -/
def protocolEvidence (race : ExportPublicationRace) (winner : ExportPublicationAttempt) : Bool :=
  let ids :=
    (race.attempts.filter fun a => a.operation == .completeMultipartUpload).map (·.uploadId)
  winner.validation.any fun v =>
    v.status200 && v.entityTagPresent && v.entityTagQuoted && v.versionAbsentOrNull &&
      v.objectIdentityRequired == (winner.operation == .completeMultipartUpload) &&
      (!v.objectIdentityRequired ||
        (v.bucketPresent && v.bucketMatches && v.keyPresent && v.keyMatches)) &&
      ids.all (fun id => !blank id) && ids.eraseDups.length == 2

/-- The conditions of `publicationCandidate` on the race. -/
def judgeable (job : ExportJob) (race : ExportPublicationRace) : Bool :=
  let put := race.key == job.key ++ ".probe-put-race"
  (put || race.key == job.key ++ ".probe-race") &&
    (race.protocol != some .hcpFinalErrorV1 || applicationEncrypted job) &&
    (race.state == .singleWinner || race.state == .verified) &&
    race.binding == bindingDigest sha job.binding && race.destination == job.destination &&
    !blank job.ownershipNonce && some race.nonce == job.ownershipNonce &&
    race.attempts.length == (if put then 3 else 2) &&
    (race.attempts.zipIdx.all fun (a, i) => intended competitors[i]? a) &&
    publicationVerdict race.attempts race.protocol == .singleWinner

/-- Is the creation of the key acknowledged? -/
def acknowledgedIn (receipts : List CreationReceipt) (key : String) : Bool :=
  receipts.any fun r => r.key == key && r.acknowledged

/-- The conditions of `publicationCandidate` on the winner. -/
def creditable (job : ExportJob) (race : ExportPublicationRace)
    (winner : ExportPublicationAttempt) : Bool :=
  (race.protocol != some .hcpFinalErrorV1 || protocolEvidence race winner) &&
    winner.httpStatus == some 200 && winner.response == some .success &&
    winner.etag.any entityTagQuoted && acknowledgedIn job.creationReceipts race.key

/-- `publicationCandidate`: everything but the state of the uploads. -/
def publicationCandidate (job : ExportJob) (race : ExportPublicationRace) :
    Option ExportPublicationAttempt :=
  if judgeable sha job race then
    (race.attempts.find? fun a => a.outcome == .acknowledged).filter (creditable job race)
  else none

def settledWinner (job : ExportJob) (race : ExportPublicationRace) :
    Option ExportPublicationAttempt :=
  if race.protocol == some .hcpFinalErrorV1 &&
      race.attempts.any fun a =>
        a.operation == .completeMultipartUpload && a.uploadAbsent != some true
  then none
  else publicationCandidate sha job race

/-- Is the upload still tracked by the job? -/
def tracked (job : ExportJob) (key : String) (uploadId : Option String) : Bool :=
  !blank uploadId && job.ownedUploads.any fun u => u.key == key && some u.uploadId == uploadId

def publicationWinner (job : ExportJob) (race : ExportPublicationRace) :
    Option ExportPublicationAttempt :=
  if race.attempts.any fun a =>
      a.operation == .completeMultipartUpload && !tracked job race.key a.uploadId
  then none
  else settledWinner sha job race

end

/-! ## What a winner shows -/

/-- The part of a job that no receipt and no cleanup changes. -/
def ExportJob.fixed (job : ExportJob) : ExportJob :=
  { job with
    publicationRaces := [], creationReceipts := [], ownedObjects := []
    cleanupState := none, cleanupFailure := none, lastCleanupFailure := none }

section
variable {sha : List UInt8 → String} {job job' : ExportJob} {race race' : ExportPublicationRace}

theorem publicationCandidate_isSome (h : (publicationCandidate sha job race).isSome) :
    judgeable sha job race = true ∧ acknowledgedIn job.creationReceipts race.key = true := by
  unfold publicationCandidate at h
  split at h
  · rename_i hj
    refine ⟨hj, ?_⟩
    obtain ⟨winner, hwinner⟩ := Option.isSome_iff_exists.mp h
    have hc := (Option.filter_eq_some_iff.mp hwinner).2
    simp only [creditable, Bool.and_eq_true] at hc
    exact hc.2
  · cases h

theorem judgeable_state (h : judgeable sha job race = true) :
    race.state = .singleWinner ∨ race.state = .verified := by
  simp only [judgeable, Bool.and_eq_true] at h
  simpa using h.1.1.1.1.1.1.1.2

/-- What a job shows for a race depends on its fixed part and on the acknowledgement. -/
theorem publicationCandidate_congr (hfixed : job'.fixed = job.fixed)
    (hack : acknowledgedIn job'.creationReceipts race.key =
      acknowledgedIn job.creationReceipts race.key) :
    publicationCandidate sha job' race = publicationCandidate sha job race := by
  have hj : judgeable sha job' race = judgeable sha job race :=
    show judgeable sha job'.fixed race = judgeable sha job.fixed race from hfixed ▸ rfl
  have hc : creditable job' race = creditable job race := by
    funext winner
    rw [creditable, creditable, hack]
  rw [publicationCandidate, publicationCandidate, hj, hc]

theorem publicationWinner_congr (hfixed : job'.fixed = job.fixed)
    (hack : acknowledgedIn job'.creationReceipts race.key =
      acknowledgedIn job.creationReceipts race.key) :
    publicationWinner sha job' race = publicationWinner sha job race := by
  have ht : tracked job' = tracked job :=
    show tracked job'.fixed = tracked job.fixed from hfixed ▸ rfl
  rw [publicationWinner, publicationWinner, settledWinner, settledWinner, ht,
    publicationCandidate_congr hfixed hack]

theorem candidate_of_winner (h : (publicationWinner sha job race).isSome) :
    (publicationCandidate sha job race).isSome := by
  unfold publicationWinner settledWinner at h
  split at h
  · cases h
  · split at h
    · cases h
    · exact h

/-- A verified race has the winner it was verified with. -/
theorem publicationWinner_verified (h : (publicationWinner sha job race).isSome) :
    publicationWinner sha job { race with state := .verified } =
      publicationWinner sha job race := by
  have hj := (publicationCandidate_isSome (candidate_of_winner h)).1
  have hj' : judgeable sha job { race with state := .verified } = true := by
    simp only [judgeable, Bool.and_eq_true] at hj ⊢
    obtain ⟨⟨⟨⟨⟨⟨⟨⟨⟨hkey, hprotocol⟩, -⟩, hbinding⟩, hdest⟩, hnonce⟩, hsame⟩, hlength⟩, hall⟩,
        hverdict⟩ := hj
    exact ⟨⟨⟨⟨⟨⟨⟨⟨⟨hkey, hprotocol⟩, rfl⟩, hbinding⟩, hdest⟩, hnonce⟩, hsame⟩, hlength⟩, hall⟩,
      hverdict⟩
  unfold publicationWinner settledWinner publicationCandidate
  rw [hj, hj']
  rfl

end

end Pluton.WriteOnce
