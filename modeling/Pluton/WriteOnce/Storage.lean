-- SUMMARY: The write-once storage against any provider, with a journal whose writes may fail.
import Pluton.Effect
import Pluton.WriteOnce.Publication

/-!
# The write-once storage

`HcpWriteOnceStorage.ts`: the requests that its race and its cleanup send and the
checks they make on the answers. The provider is a sequence of arbitrary answers;
the journal is a sequence of writes each of which commits or throws. Every request
is kept with its answer and with the record that was durable when it was sent.

A crash needs no case of its own: a run in which from some point on every answer is
a broken connection and every write fails leaves the same record and the same requests.
-/
namespace Pluton.WriteOnce

inductive Request
  | getBucketVersioning
  | headObject (key : String) (ifMatch : Option String)
  | getObject (key : String) (ifMatch : Option String)
  | createMultipartUpload (key : String)
  | uploadPart (key uploadId : String) (partNumber : Nat) (body : List UInt8)
  | abortMultipartUpload (key uploadId : String)
  | listParts (key uploadId : String)
  | listMultipartUploads (under : String)
  | deleteObject (key : String) (ifMatch : Option String)
  deriving DecidableEq

def Request.operation : Request → Operation
  | .getBucketVersioning => .getBucketVersioning
  | .headObject _ _ => .headObject
  | .getObject _ _ => .getObject
  | .createMultipartUpload _ => .createMultipartUpload
  | .uploadPart _ _ _ _ => .uploadPart
  | .abortMultipartUpload _ _ => .abortMultipartUpload
  | .listParts _ _ => .listParts
  | .listMultipartUploads _ => .listMultipartUploads
  | .deleteObject _ _ => .deleteObject

/-- `exportTarget((command.input as { Key?: string }).Key)` -/
def Request.target : Request → Target
  | .getBucketVersioning => .wholeNamespace
  | .headObject key _ => exportTarget key
  | .getObject key _ => exportTarget key
  | .createMultipartUpload key => exportTarget key
  | .uploadPart key _ _ _ => exportTarget key
  | .abortMultipartUpload key _ => exportTarget key
  | .listParts key _ => exportTarget key
  | .listMultipartUploads _ => .wholeNamespace
  | .deleteObject key _ => exportTarget key

/-- An entry of a listing of multipart uploads. -/
structure ListedUpload where
  Key : Option String
  UploadId : Option String

/-- A `Date`: its time value, or `NaN`. -/
inductive Date
  | invalid
  | at (ms : Int)

/-- `date.toISOString()`, for a date that is one. -/
def Date.toISOString : Date → Option String
  | .invalid => none
  | .at ms => some (Js.toISOString ms)

/-- A body that is read in chunks and may break off. -/
structure Body where
  chunks : List (List UInt8)
  breaks : Bool := false

/-- A successful answer, with every field some request's caller reads. -/
structure Output where
  httpStatusCode : Option Nat := some 200
  Status : Option String := none
  ETag : Option String := none
  VersionId : Option String := none
  ContentLength : Option Nat := none
  LastModified : Option Date := none
  ServerSideEncryption : Option String := none
  Metadata : List (String × String) := []
  Body : Option Body := none
  UploadId : Option String := none
  IsTruncated : Option Bool := none
  /-- what `Uploads` holds when it is an array -/
  Uploads : Option (List ListedUpload) := none

abbrev Response := Except Failure Output

structure Exchange where
  request : Request
  response : Response
  /-- the durable record when the request was sent -/
  record : ExportJob

/-- What the storage runs against. -/
structure Env where
  bucket : String
  /-- `config.prefix` -/
  folder : String
  fingerprint : String
  sha : List UInt8 → String
  /-- the provider's answer to the n-th request -/
  answer : Nat → Response
  /-- does the n-th write to the journal commit? -/
  commits : Nat → Bool
  /-- Is the job a capability probe kept inside its archive job? The caller then assigns
  the fields to the job before it writes, and writes the whole job. -/
  assigns : Bool := false

structure World where
  job : ExportJob
  record : ExportJob
  sent : List Exchange := []
  writes : Nat := 0

/-- A job as it is loaded from its record. -/
def World.start (job : ExportJob) : World := { job := job, record := job }

abbrev Prog := EStateM Failure World

variable (env : Env)

open EStateM

/-! ## Requests and journal writes -/

/-- The job in memory. -/
def currentJob : Prog ExportJob := World.job <$> get

def World.push (w : World) (request : Request) (response : Response) : World :=
  { w with sent := w.sent ++ [{ request := request, response := response, record := w.record }] }

/-- `send`: the provider's error comes wrapped, with its status. -/
def send (request : Request) : Prog Output := fun w =>
  match env.answer w.sent.length with
  | .ok output => .ok output (w.push request (.ok output))
  | .error error =>
      let detail : Detail :=
        match error with
        | .operation inner => inner.detail
        | _ => .providerError
      .error (.operation (.of request.operation error detail .storageUnavailable request.target))
        (w.push request (.error error))

/-- `update`: the journal write of a caller. -/
def update (fields : ExportJob → ExportJob) : Prog Unit := fun w =>
  let job := if env.assigns then fields w.job else w.job
  if env.commits w.writes then
    .ok () { w with
      job := job
      record := if env.assigns then job else fields w.record
      writes := w.writes + 1 }
  else .error .journal { w with job := job, writes := w.writes + 1 }

def assign (fields : ExportJob → ExportJob) : Prog Unit :=
  modify fun w => { w with job := fields w.job }

/-- `update(fields)` and then the same fields of the job in memory. -/
def journal (fields : ExportJob → ExportJob) : Prog Unit := do
  update env fields
  assign fields

/-- `/^[a-f0-9-]{36}$/` -/
def isJobId (text : String) : Bool :=
  text.toList.length == 36 && text.toList.all fun ch =>
    ('a' ≤ ch && ch ≤ 'f') || ('0' ≤ ch && ch ≤ '9') || ch == '-'

/-- May the storage touch this key for the job? -/
def inScope (job : ExportJob) (key : String) : Bool :=
  job.destination == env.fingerprint && job.key == env.folder ++ "/" ++ job.id ++ ".tar" &&
    isJobId job.id &&
    (if isWriteOnce job.integrityMode then writeOnceKeys job
      else [job.key, job.key ++ ".probe"]).contains key

/-- `S3ExportStorage.scope` -/
def scope (job : ExportJob) (key : String) : Except Failure String :=
  if inScope env job key then .ok key else .error (.temporary .bindingChanged)

/-- A refused answer, as the storage reports it. -/
def refused (operation : Operation) (output : Output) (detail : Detail) (reason : Reason)
    (target : Target) : Failure :=
  .operation (.ofAnswer operation output.httpStatusCode detail reason target)

/-- The same where there is no answer to blame. -/
def refusedBare (operation : Operation) (detail : Detail) (reason : Reason) (target : Target) :
    Failure :=
  .operation (.ofAnswer operation none detail reason target)

/-! ## Checks on an object -/

/-- `S3ExportStorage.owns` -/
def owns (job : ExportJob) (head : Output) : Bool :=
  head.Metadata.lookup "pluton-export-job" == some job.id &&
    head.Metadata.lookup "pluton-export-binding" == some (bindingDigest env.sha job.binding)

/-- Does the answer describe the object of the proof? -/
def describes (job : ExportJob) (proof : OwnedObject) (head : Output) : Bool :=
  versionAbsentOrNull head.VersionId && owns env job head &&
    head.Metadata.lookup "pluton-export-nonce" == job.ownershipNonce &&
    (applicationEncrypted job || head.ServerSideEncryption == some "AES256") &&
    head.ContentLength == some proof.bytes && head.ETag == some proof.etag &&
    (head.LastModified.bind Date.toISOString) == some proof.created

/-- `matches` -/
def matchesProof (job : ExportJob) (key : String) (head : Output) : Bool :=
  (job.proof key).any fun proof => describes env job proof head

/-- A missing or a changed object, reported as such. -/
def orMismatch (operation : Operation) (key : String) (x : Prog Output) : Prog Output := do
  match ← observe x with
  | .ok output => pure output
  | .error e =>
      if e.status == some 404 || e.status == some 412 then
        throw (.operation (.of operation e .providerError .objectMismatch (exportTarget key)))
      else throw e

def head (job : ExportJob) (key : String) : Prog Output := do
  let output ← orMismatch .headObject key do
    let key ← ofExcept (scope env job key)
    send env (.headObject key ((job.proof key).map (·.etag)))
  refuseIf (!matchesProof env job key output)
    (refused .headObject output .identityMismatch .objectMismatch (exportTarget key))
  pure output

/-- `get` without a range, with the proof and the body that the answer is checked to have. -/
def get (job : ExportJob) (key : String) : Prog (OwnedObject × Output × Body) := do
  match job.proof key with
  | none => throw (.temporary .objectMismatch)
  | some proof =>
      let output ← orMismatch .getObject key do
        let key ← ofExcept (scope env job key)
        send env (.getObject key (some proof.etag))
      match output.Body with
      | none =>
          throw (refused .getObject output .identityMismatch .objectMismatch (exportTarget key))
      | some body =>
          refuseIf
            (!matchesProof env job key { output with ContentLength := some proof.bytes } ||
              output.ContentLength != some proof.bytes || output.httpStatusCode != some 200)
            (refused .getObject output .identityMismatch .objectMismatch (exportTarget key))
          pure (proof, output, body)

/-- The bytes of a body that is not longer than the proof says. -/
def readBody (limit : Nat) : List UInt8 → List (List UInt8) → Option (List UInt8)
  | read, [] => some read
  | read, chunk :: chunks =>
      if limit < read.length + chunk.length then none else readBody limit (read ++ chunk) chunks

/-- `readback` -/
def readback (job : ExportJob) (key : String) : Prog Unit := do
  let _ ← head env job key
  let (proof, output, body) ← get env job key
  match readBody proof.bytes [] body.chunks with
  | none => throw (.temporary .objectMismatch)
  | some read =>
      refuseIf body.breaks (.provider {})
      refuseIf (read.length != proof.bytes || env.sha read != proof.sha256)
        (refused .getObject output .checksumMismatch .objectMismatch (exportTarget key))

/-- `absent(job, key)`: the key must answer 404. -/
def absent (job : ExportJob) (key : String) : Prog Unit := do
  match ← observe (do
      let key ← ofExcept (scope env job key)
      send env (.headObject key none)) with
  | .ok output =>
      throw (refused .headObject output .objectRemains .objectMismatch (exportTarget key))
  | .error e => if e.absent then pure () else throw e

/-- `unversioned` -/
def unversioned : Prog Unit := do
  let versioning ← send env .getBucketVersioning
  refuseIf versioning.Status.isSome
    (refused .getBucketVersioning versioning .versioningChanged .cleanupPending .wholeNamespace)

/-! ## Receipts and proofs -/

/-- `[...receipts.filter(r => r.key !== key), { key, acknowledged: true }]` -/
def acknowledge (key : String) (receipts : List CreationReceipt) : List CreationReceipt :=
  receipts.filter (fun r => r.key != key) ++ [{ key := key, acknowledged := true }]

/-- The first failed check on the object that an acknowledged creation left. -/
def headDetail (job : ExportJob) (etag : Option String) (bytes : Nat) (head : Output) :
    Option Detail :=
  if httpStatus head.httpStatusCode != some 200 then some .unexpectedHeadStatus
  else if head.ETag != etag then some .etagMismatch
  else if head.ContentLength != some bytes then some .lengthMismatch
  else if (head.LastModified.bind Date.toISOString).isNone then some .missingLastModified
  else if !versionAbsentOrNull head.VersionId then some .versionPresent
  else if !applicationEncrypted job && head.ServerSideEncryption != some "AES256" then
    some .sseS3Unverified
  else if !owns env job head ||
      head.Metadata.lookup "pluton-export-nonce" != job.ownershipNonce then
        some .ownershipMarkerMismatch
  else none

/-- `[...ownedObjects.filter(p => p.key !== key), proof]` -/
def withProof (proof : OwnedObject) (job : ExportJob) : ExportJob :=
  { job with ownedObjects := job.ownedObjects.filter (fun p => p.key != proof.key) ++ [proof] }

/-- `record`, as the race and the cleanup call it: with the answer's tag and status and
with the readback of the candidate. -/
def record (key : String) (etag : Option String) (status : Option Nat) (bytes : Nat)
    (digest : String) : Prog Unit :=
  do
  -- the acknowledgement is journaled before the object is looked at
  let receipts := acknowledge key (← currentJob).creationReceipts
  journal env fun job => { job with creationReceipts := receipts }
  refuseIf (blank etag)
    (.operation (.ofAnswer .creationResponse status .missingEtag .objectMismatch
      (exportTarget key)))
  refuseIf (httpStatus status != some 200)
    (.operation
      (.ofAnswer .creationResponse status .unexpectedCreationStatus .objectMismatch
        (exportTarget key)))
  let job ← currentJob
  let output ← (do
    let key ← ofExcept (scope env job key)
    send env (.headObject key etag))
  match headDetail env job etag bytes output with
  | some detail => throw (refused .headObject output detail .objectMismatch (exportTarget key))
  | none =>
      let proof : OwnedObject :=
        { key := key, etag := etag.getD "", bytes := bytes, sha256 := digest
          created := (output.LastModified.bind Date.toISOString).getD "" }
      let ownedObjects := (withProof proof job).ownedObjects
      readback env { job with ownedObjects := ownedObjects } key
      journal env fun job => { job with ownedObjects := ownedObjects }

/-- `[...publicationRaces.filter(r => r.key !== race.key), race]` -/
def withRace (race : ExportPublicationRace) (races : List ExportPublicationRace) :
    List ExportPublicationRace :=
  races.filter (fun r => r.key != race.key) ++ [race]

/-- `saveRace` -/
def saveRace (race : ExportPublicationRace) (acknowledged : Bool := false) : Prog Unit := do
  let job ← currentJob
  let races := withRace race job.publicationRaces
  refuseIf (2 < races.length) (.temporary .quotaExceeded)
  let receipts :=
    if acknowledged then acknowledge race.key job.creationReceipts else job.creationReceipts
  journal env fun job => { job with publicationRaces := races, creationReceipts := receipts }

/-! ## Uploads -/

/-- Abort an upload; is the abort acknowledged, or was it gone already? -/
def abortUpload (job : ExportJob) (key uploadId : String) : Prog Bool := do
  match ← observe (do
      let key ← ofExcept (scope env job key)
      send env (.abortMultipartUpload key uploadId)) with
  | .ok _ => pure true
  | .error e => if e.absent then pure false else throw e

/-- The parts of the upload must answer 404. -/
def partsAbsent (job : ExportJob) (key uploadId : String) (target : Target) : Prog Unit := do
  match ← observe (do
      let key ← ofExcept (scope env job key)
      send env (.listParts key uploadId)) with
  | .ok _ => throw (refusedBare .listParts .multipartRemains .cleanupPending target)
  | .error e => if e.absent then pure () else throw e

/-- The receipt that the upload of a competitor is gone. -/
def markAbsent (uploadId : String) (abortAcknowledged : Bool) (race : ExportPublicationRace) :
    ExportPublicationRace :=
  { race with
    attempts := race.attempts.map fun a =>
      if a.uploadId == some uploadId then
        { a with uploadAbsent := some true, abortAcknowledged := some abortAcknowledged }
      else a }

/-- `assertRaceUploadsAbsent` -/
def assertRaceUploadsAbsent (race : ExportPublicationRace) : Prog Unit := do
  let pending ← send env (.listMultipartUploads race.key)
  let complete := httpStatus pending.httpStatusCode == some 200 && pending.IsTruncated == some false
  refuseIf (!complete)
    (refused .listMultipartUploads pending .listingIncomplete .cleanupPending
      (exportTarget race.key))
  refuseIf (!(pending.Uploads.getD []).isEmpty)
    (refused .listMultipartUploads pending .multipartRemains .cleanupPending
      (exportTarget race.key))

end Pluton.WriteOnce
