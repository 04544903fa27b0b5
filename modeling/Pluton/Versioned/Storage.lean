-- SUMMARY: The cleanup of an export in a versioned bucket, against an arbitrary provider.
import Pluton.WriteOnce.Race

/-!
# The versioned storage

`cleanup` of `S3ExportStorage.ts`, and what it asks of a job: which uploads and versions
are its own. The provider is a sequence of arbitrary answers; a broken connection and an
aborted request are answers too. A capability probe and an export of a write-once bucket
are left to the write-once storage, whose requests are logged apart.
-/
namespace Pluton.Versioned

open EStateM
open WriteOnce (Failure ListedUpload)

/-! ## Jobs -/

/-- An item of `ownedVersions`. -/
structure OwnedVersion where
  key : String
  versionId : String
  etag : Option String
  bytes : Nat

/-- What is read of `summary`. -/
structure Summary where
  archiveBytes : Nat
  archiveSha256 : String

/-- What the cleanup reads of a job. -/
structure ExportJob extends WriteOnce.ExportJob where
  uploadId : Option String := none
  probeUploadId : Option String := none
  ownedVersions : List OwnedVersion := []
  versionId : Option String := none
  etag : Option String := none
  summary : Option Summary := none
  capabilityProbe : Option WriteOnce.ExportJob := none
  /-- `capabilityProbe.cleaned` -/
  probeCleaned : Bool := false

/-- A text that is there and not empty. -/
def given (text : Option String) : Option String := text.filter (· != "")

/-- The keys of a job in a versioned bucket, in the order of the cleanup. -/
def keys (job : ExportJob) : List String := [job.key ++ ".probe", job.key]

/-! ## Requests -/

inductive Request
  | headObject (key : String) (versionId : Option String)
  | deleteObject (key versionId : String)
  | abortMultipartUpload (key uploadId : String)
  | listParts (key uploadId : String)
  | listMultipartUploads (under : String) (keyMarker uploadIdMarker : Option String)
  | listObjectVersions (under : String) (keyMarker versionIdMarker : Option String)

/-- An item of `Versions` or of `DeleteMarkers`. -/
structure ListedVersion where
  Key : Option String
  VersionId : Option String

/-- A successful answer. A list that is absent and one that is empty are treated alike. -/
structure Output extends WriteOnce.Output where
  Versions : List ListedVersion := []
  DeleteMarkers : List ListedVersion := []
  NextKeyMarker : Option String := none
  NextVersionIdMarker : Option String := none
  NextUploadIdMarker : Option String := none

abbrev Response := Except Failure Output

structure Exchange where
  request : Request
  response : Response

structure Env extends WriteOnce.Env where
  allowSharedNamespace : Bool
  /-- the answer to the n-th request of the versioned storage -/
  answers : Nat → Response

structure World where
  sent : List Exchange := []
  /-- what the write-once storage sent, and how often it wrote -/
  delegated : List WriteOnce.Exchange := []
  writes : Nat := 0
  aborted : List String := []

abbrev Prog := EStateM Failure World

def send (env : Env) (request : Request) : Prog Output := fun w =>
  let w' :=
    { w with sent := w.sent ++ [{ request := request, response := env.answers w.sent.length }] }
  match env.answers w.sent.length with
  | .ok output => .ok output w'
  | .error error => .error error w'

/-- `missing` -/
def missing (error : Failure) : Bool := error.rawStatus == some 404

def cleanupPending : Failure := .temporary .cleanupPending

/-- A request about a key of the job. -/
def ask (env : Env) (job : ExportJob) (key : String) (request : String → Request) : Prog Output :=
  do
  let key ← ofExcept (WriteOnce.scope env.toEnv job.toExportJob key)
  send env (request key)

/-- A request about what may be missing. -/
def unlessMissing (x : Prog Output) : Prog Unit := do
  match ← observe x with
  | .ok _ => pure ()
  | .error error => if missing error then pure () else throw error

/-- A request about what must be missing. -/
def gone (x : Prog Output) : Prog Unit := do
  match ← observe x with
  | .ok _ => throw cleanupPending
  | .error error => if missing error then pure () else throw error

/-! ## Ownership -/

def ownsUpload (job : ExportJob) (key id : String) : Bool :=
  (key == job.key && job.uploadId == some id) ||
    (key == job.key ++ ".probe" && job.probeUploadId == some id)

def versionProof (job : ExportJob) (key version : String) : Option OwnedVersion :=
  (job.ownedVersions.find? fun item => item.key == key && item.versionId == version) <|>
    match job.summary with
    | some summary =>
      if key == job.key && some version == job.versionId then
        some ⟨key, version, job.etag, summary.archiveBytes⟩
      else none
    | none => none

def owns (env : Env) (job : ExportJob) (head : Output) : Bool :=
  WriteOnce.owns env.toEnv job.toExportJob head.toOutput

def matchesVersionProof (env : Env) (job : ExportJob) (key version : String) (head : Output) :
    Bool :=
  match versionProof job key version with
  | none => false
  | some proof =>
    owns env job head && head.VersionId == some version && head.ContentLength == some proof.bytes &&
      head.ServerSideEncryption == some "AES256" &&
      ((given proof.etag).isNone || proof.etag == head.ETag) &&
      (some version != job.versionId ||
        head.Metadata.lookup "archive-sha256" == job.summary.map Summary.archiveSha256)

/-! ## Uploads -/

def abort (env : Env) (job : ExportJob) (key id : String) : Prog Unit := do
  let w ← get
  if w.aborted.contains id then pure ()
  else do
    unlessMissing (ask env job key (.abortMultipartUpload · id))
    modify fun w => { w with aborted := w.aborted ++ [id] }
    gone (ask env job key (.listParts · id))

/-- An upload of a listing. -/
def abortListed (env : Env) (job : ExportJob) (upload : ListedUpload) : Prog Unit :=
  let key := upload.Key.getD ""
  match given upload.UploadId with
  | none => pure ()
  | some id =>
    if (keys job).contains key then do
      refuseIf (env.allowSharedNamespace && !ownsUpload job key id) cleanupPending
      abort env job key id
    else pure ()

/-- The pages of a listing of uploads; `pages` is how many are left. -/
def abortPages (env : Env) (job : ExportJob) : Nat → Option String → Option String → Prog Unit
  | 0, _, _ => pure ()
  | pages + 1, keyMarker, uploadIdMarker => do
    let uploads ← send env (.listMultipartUploads job.key keyMarker uploadIdMarker)
    (uploads.Uploads.getD []).forM (abortListed env job)
    if uploads.IsTruncated != some true then pure ()
    else if pages == 0 then throw cleanupPending
    else abortPages env job pages uploads.NextKeyMarker uploads.NextUploadIdMarker

def cleanupUploads (env : Env) (job : ExportJob) : Prog Unit := do
  abortPages env job 4 none none
  (given job.uploadId).toList.forM (abort env job job.key)
  (given job.probeUploadId).toList.forM (abort env job (job.key ++ ".probe"))
  let pending ← send env (.listMultipartUploads job.key none none)
  refuseIf (pending.IsTruncated == some true ||
    (pending.Uploads.getD []).any fun upload =>
      (keys job).contains (upload.Key.getD "")) cleanupPending

/-! ## Versions -/

/-- What was seen of a key while its versions were listed. -/
structure Seen where
  owned : Bool := false
  foreign : Bool := false
  markers : List String := []

/-- A version is deleted, and must then be missing. -/
def removeVersion (env : Env) (job : ExportJob) (key version : String) : Prog Unit := do
  let _ ← ask env job key (.deleteObject · version)
  gone (ask env job key (.headObject · (some version)))

def deleteVersion (env : Env) (job : ExportJob) (key : String) (seen : Seen)
    (item : ListedVersion) : Prog Seen :=
  match given item.VersionId with
  | none => pure seen
  | some version =>
    if item.Key != some key then pure seen
    else do
      let head ← ask env job key (.headObject · (some version))
      if !owns env job head ||
        (env.allowSharedNamespace && !matchesVersionProof env job key version head) then
        pure { seen with foreign := true }
      else do
        removeVersion env job key version
        pure { seen with owned := true }

def noteMarker (env : Env) (key : String) (seen : Seen) (item : ListedVersion) : Prog Seen :=
  match given item.VersionId with
  | none => pure seen
  | some version =>
    if item.Key != some key then pure seen
    else do
      refuseIf env.allowSharedNamespace cleanupPending
      pure { seen with markers := seen.markers ++ [version] }

/-- The pages of a listing of versions; `pages` is how many are left. -/
def deletePages (env : Env) (job : ExportJob) (key : String) :
    Nat → Option String → Option String → Seen → Prog Seen
  | 0, _, _, seen => pure seen
  | pages + 1, marker, versionMarker, seen => do
    let versions ← send env (.listObjectVersions key marker versionMarker)
    let seen ← versions.Versions.foldlM (deleteVersion env job key) seen
    let seen ← versions.DeleteMarkers.foldlM (noteMarker env key) seen
    if versions.IsTruncated != some true then pure seen
    else if pages == 0 then throw cleanupPending
    else deletePages env job key pages versions.NextKeyMarker versions.NextVersionIdMarker seen

/-- The version that the job has on record for a key. -/
def recordedVersion (job : ExportJob) (key : String) : Option String :=
  if key == job.key then given job.versionId else none

def cleanupKey (env : Env) (job : ExportJob) (key : String) : Prog Unit := do
  let seen ← deletePages env job key 4 none none {}
  refuseIf (seen.foreign ||
    (!seen.markers.isEmpty && !seen.owned && (recordedVersion job key).isNone)) cleanupPending
  seen.markers.forM fun version => do
    let _ ← send env (.deleteObject key version)
  let remaining ← send env (.listObjectVersions key none none)
  refuseIf (remaining.IsTruncated == some true ||
    (remaining.Versions ++ remaining.DeleteMarkers).any fun item =>
      item.Key == some key) cleanupPending
  (none :: (recordedVersion job key).toList.map some).forM fun version =>
    gone (ask env job key (.headObject · version))

/-! ## The cleanup -/

/-- The write-once storage's cleanup of a job; `assigns` as there. -/
def delegate (env : Env) (assigns : Bool) (job : WriteOnce.ExportJob) : Prog Unit := fun w =>
  let env' : WriteOnce.Env := { env.toEnv with
    answer := fun n => env.answer (w.delegated.length + n),
    commits := fun n => env.commits (w.writes + n)
    assigns := assigns }
  let result := WriteOnce.cleanup env' (.start job)
  let w' :=
    { w with delegated := w.delegated ++ result.state.sent,
             writes := w.writes + result.state.writes }
  match result with
  | .ok _ _ => .ok () w'
  | .error error _ => .error error w'

/-- The capability probe of a job goes first. -/
def cleanupProbe (env : Env) (job : ExportJob) : Prog Unit :=
  match job.capabilityProbe with
  | none => pure ()
  | some probe =>
    if job.probeCleaned then pure ()
    else do
      delegate env true probe
      let w ← get
      modify fun w => { w with writes := w.writes + 1 }
      refuseIf (!env.commits w.writes) .journal

def cleanup (env : Env) (job : ExportJob) : Prog Unit := do
  cleanupProbe env job
  if WriteOnce.isWriteOnce job.integrityMode then delegate env false job.toExportJob
  else do
    let _ ← ofExcept (WriteOnce.scope env.toEnv job.toExportJob job.key)
    cleanupUploads env job
    (keys job).forM (cleanupKey env job)

end Pluton.Versioned
