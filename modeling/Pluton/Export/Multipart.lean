-- SUMMARY: The multipart upload of an export: the writer that fills the parts, and the completion.
import Pluton.Effect
import Pluton.Export.Cipher

/-!
# Multipart upload

`upload` and `uploadWire` of `backend/src/utils/managedExport/S3ExportStorage.ts`. The
writer is given one chunk after the other, each when the one before was taken; after a
failure it takes none. What the provider, the job's record and the source of the archive
answer is the environment of one run. A process that stops is a run in which everything
after that point fails.
-/
namespace Pluton.Export.Multipart

open EStateM

/-- `EXPORT_LIMITS.partBytes` -/
def partBytes : Nat := 16 * 1024 ^ 2

inductive Request where
  | createMultipartUpload
  | uploadPart (partNumber : Nat) (body : Bytes)
  | completeMultipartUpload (parts : List (Nat × String))

inductive Failure where
  | objectMismatch
  | quotaExceeded
  | storageUnavailable
  | securityCapabilityMissing
  /-- A rejected request or stream, or a record that was not updated. -/
  | rejected

/-- What the upload reads of its job. -/
structure ExportJob where
  /-- `applicationEncrypted(job)` -/
  applicationEncrypted : Bool
  /-- `isWriteOnce(job.integrityMode)` -/
  writeOnce : Bool
  encryption : Option Manifest
  /-- `job.summary?.archiveBytes` -/
  summaryBytes : Option Nat
  publicationAttempted : Bool
  /-- Whether `job.identity` is set. -/
  identity : Bool

def storedExportBytes (job : ExportJob) : Option Nat :=
  (job.encryption.map Manifest.ciphertextBytes) <|> job.summaryBytes

/-- What one run is answered. -/
structure Env where
  /-- The checks before the upload is created. -/
  admits : Bool
  /-- The upload is created and has an id. -/
  creates : Bool
  /-- The request for a part is not sent, as the run was aborted. -/
  aborted : Nat → Bool
  /-- The answer to the request for a part, and its ETag. -/
  part : Nat → Option (Option String)
  /-- Whether an update of the record is written, by their order. -/
  updates : Nat → Bool
  /-- Whether a second passed since the last progress update. -/
  due : Nat → Bool
  /-- What the archive writes, and whether its stream ends well. -/
  chunks : List Bytes
  streams : Bool
  /-- The checks of a write-once bucket before the publication. -/
  publishes : Bool
  /-- The completion is sent, and what it was answered is accepted. -/
  sends : Bool
  accepted : Bool
  /-- What the manifest of an encrypted export is made of. -/
  sha256 : String
  noncePrefix : Bytes
  salt : Bytes
  context : String

structure World where
  /-- The job in memory, and its record. -/
  job : ExportJob
  record : ExportJob
  requests : List Request
  updates : Nat
  /-- What the buffer holds: its first `used` bytes. -/
  buffer : Bytes
  processed : Nat
  uploaded : Nat
  /-- `PartNumber` and `ETag` of the parts that were acknowledged. -/
  parts : List (Nat × String)

abbrev Program := EStateM Failure World

/-! ## Requests and updates -/

def send (request : Request) : Program Unit :=
  modify fun w => { w with requests := w.requests ++ [request] }

/-- `update(fields)` -/
def update (env : Env) (fields : ExportJob → ExportJob) : Program Unit := do
  let w ← get
  modify fun w => { w with updates := w.updates + 1 }
  if env.updates w.updates then modify fun w => { w with record := fields w.record }
  else throw .rejected

/-- `part`: what the buffer holds is sent as the next part. -/
def part (env : Env) : Program Unit := do
  let w ← get
  if w.buffer.isEmpty then pure ()
  else do
    let partNumber := w.parts.length + 1
    refuseIf (env.aborted partNumber) .rejected
    send (.uploadPart partNumber w.buffer)
    match env.part partNumber with
    | none => throw .rejected
    | some tag => do
      refuseIf (tag.getD "" == "") .storageUnavailable
      modify fun w => { w with
        parts := w.parts ++ [(partNumber, tag.getD "")],
        uploaded := w.uploaded + w.buffer.length, buffer := [] }
      update env id

/-! ## The writer -/

/-- The loop over one chunk. Every round takes a byte at least, so the length of the
chunk is enough fuel. -/
def fill (env : Env) : Nat → Bytes → Program Unit
  | 0, _ => pure ()
  | fuel + 1, chunk =>
    if chunk.isEmpty then pure ()
    else do
      let w ← get
      let n := min (partBytes - w.buffer.length) chunk.length
      modify fun w => { w with buffer := w.buffer ++ chunk.take n }
      let w ← get
      if w.buffer.length == partBytes then part env
      fill env fuel (chunk.drop n)

/-- The limit on what an upload may take. -/
def quota (job : ExportJob) : Option Nat :=
  if job.applicationEncrypted then storedExportBytes job else some maxObjectBytes

def write (env : Env) (archiveBytes : Nat) (chunk : Bytes) : Program Unit := do
  modify fun w => { w with processed := w.processed + chunk.length }
  let w ← get
  refuseIf (archiveBytes < w.processed || (quota w.job).any (· < w.processed)) .quotaExceeded
  fill env chunk.length chunk
  let w ← get
  if env.due w.updates then update env id

/-! ## The upload -/

/-- The record that the upload was published. -/
def attempted (job : ExportJob) : ExportJob := { job with publicationAttempted := true }

def uploadWire (env : Env) (archiveBytes : Nat) : Program Unit := do
  let w ← get
  refuseIf (w.job.publicationAttempted || w.job.identity) .objectMismatch
  refuseIf (!env.admits) .rejected
  send .createMultipartUpload
  refuseIf (!env.creates) .storageUnavailable
  update env id
  modify fun w => { w with buffer := [], processed := 0, uploaded := 0, parts := [] }
  env.chunks.forM (write env archiveBytes)
  refuseIf (!env.streams) .rejected
  -- the end of the stream
  part env
  let w ← get
  refuseIf (w.processed != archiveBytes || w.uploaded != w.processed ||
    w.parts.isEmpty) .objectMismatch
  refuseIf (w.job.writeOnce && !env.publishes) .securityCapabilityMissing
  modify fun w => { w with job := attempted w.job }
  update env attempted
  refuseIf (!env.sends) .rejected
  let w ← get
  send (.completeMultipartUpload w.parts)
  refuseIf (!env.accepted) .securityCapabilityMissing
  modify fun w => { w with job := { w.job with identity := true } }
  update env fun job => { job with identity := true }

/-- An encrypted export is never encrypted again: a retry is a new job. -/
def upload (env : Env) (archiveBytes : Nat) : Program Unit := do
  let w ← get
  if !w.job.applicationEncrypted then uploadWire env archiveBytes
  else do
    refuseIf (w.job.encryption.isSome || w.job.publicationAttempted ||
      w.job.identity) .objectMismatch
    match Manifest.create archiveBytes env.sha256 env.noncePrefix env.salt env.context with
    | none => throw .objectMismatch
    | some manifest => do
      modify fun w => { w with job := { w.job with encryption := some manifest } }
      update env fun job => { job with encryption := some manifest }
      uploadWire env manifest.ciphertextBytes

/-- One run after another: each starts from the record. -/
def attempt (w : World) (run : Env × Nat) : World :=
  (upload run.1 run.2).after { w with job := w.record }

end Pluton.Export.Multipart
