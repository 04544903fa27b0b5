-- SUMMARY: The failures of the write-once export storage and what is kept of them.
import Pluton.Js

/-!
# Failures of an export

`ExportDiagnostics.ts`: what the storage throws and the projection of it that a job
records. Nothing of a provider's text survives; codes and statuses are matched
against fixed lists.
-/
namespace Pluton.WriteOnce

/-- `ExportOperation`, as far as the modelled code names it. -/
inductive Operation
  | getBucketVersioning
  | putObject
  | headObject
  | getObject
  | createMultipartUpload
  | uploadPart
  | completeMultipartUpload
  | abortMultipartUpload
  | listParts
  | listMultipartUploads
  | deleteObject
  | creationResponse
  | ownershipProof
  | unknown
  deriving DecidableEq

inductive Detail
  | providerError
  | missingEtag
  | unexpectedCreationStatus
  | versionPresent
  | etagMismatch
  | lengthMismatch
  | missingLastModified
  | sseS3Unverified
  | ownershipMarkerMismatch
  | ownershipProofMissing
  | identityMismatch
  | checksumMismatch
  | unknownMultipart
  | multipartRemains
  | listingIncomplete
  | versioningChanged
  | versioningResponseInvalid
  | unexpectedHeadStatus
  | objectRemains
  | raceMultipleSuccesses
  | raceMultipleAcknowledgements
  | raceAmbiguous
  | raceResponseInvalid
  | raceJournalFailed
  | completionBodyInvalid
  | completionReplayBlocked
  deriving DecidableEq

inductive Provider
  | accessDenied
  | unsupportedApi
  | notFound
  | preconditionFailed
  | conflict
  | tlsValidation
  | network
  | deadline
  | aborted
  | invalidResponse
  | serviceError
  deriving DecidableEq

inductive ProviderCode
  | accessDenied
  | invalidAccessKeyId
  | signatureDoesNotMatch
  | authorizationHeaderMalformed
  | notImplemented
  | methodNotAllowed
  | invalidRequest
  | invalidArgument
  | invalidPart
  | entityTooSmall
  | preconditionFailed
  | invalidPartOrder
  | noSuchUpload
  | invalidObjectState
  | operationAborted
  | badDigest
  | slowDown
  | internalError
  | serviceUnavailable
  | unrecognized
  deriving DecidableEq

/-- `providerCodes`, in the order in which they are looked for. -/
def providerCodes : List (String × ProviderCode) :=
  [("AccessDenied", .accessDenied), ("InvalidAccessKeyId", .invalidAccessKeyId),
    ("SignatureDoesNotMatch", .signatureDoesNotMatch),
    ("AuthorizationHeaderMalformed", .authorizationHeaderMalformed),
    ("NotImplemented", .notImplemented), ("MethodNotAllowed", .methodNotAllowed),
    ("InvalidRequest", .invalidRequest), ("InvalidArgument", .invalidArgument),
    ("InvalidPart", .invalidPart), ("EntityTooSmall", .entityTooSmall),
    ("PreconditionFailed", .preconditionFailed), ("InvalidPartOrder", .invalidPartOrder),
    ("NoSuchUpload", .noSuchUpload), ("InvalidObjectState", .invalidObjectState),
    ("OperationAborted", .operationAborted), ("BadDigest", .badDigest), ("SlowDown", .slowDown),
    ("InternalError", .internalError), ("ServiceUnavailable", .serviceUnavailable),
    ("unrecognized", .unrecognized)]

inductive Target
  | wholeNamespace
  | archive
  | probe
  | race
  | putRace
  | unknown
  deriving DecidableEq

/-- `exportTarget`; the storage always names a key, so the namespace is given explicitly. -/
def exportTarget (key : String) : Target :=
  if key = "" then .wholeNamespace
  else if Js.endsWith ".probe-put-race" key then .putRace
  else if Js.endsWith ".probe-race" key then .race
  else if Js.endsWith ".probe" key then .probe
  else .archive

/-- `ExportFailure`, as far as the modelled code throws it. -/
inductive Reason
  | storageUnavailable
  | securityCapabilityMissing
  | objectMismatch
  | quotaExceeded
  | cleanupPending
  | bindingChanged

/-- `PublicationResponse` -/
inductive PublicationResponse
  | success
  | invalidResponse
  | providerError
  | embeddedError
  | sdkParsingError
  | transportError
  | bodyInvalid
  deriving DecidableEq

inductive CompletionBody
  | complete
  | empty
  | incomplete
  | tooLarge
  | unavailable
  deriving DecidableEq

inductive CompletionXml
  | result
  | error
  | other
  | malformed
  | notParsed
  deriving DecidableEq

inductive CompletionNamespace
  | s3
  | hcp
  | none
  | unsupported
  | notParsed
  deriving DecidableEq

inductive XmlParser
  | accepted
  | rejected
  | notRun
  deriving DecidableEq

inductive SdkParser
  | resolved
  | rejected
  | notRun
  deriving DecidableEq

/-- `CompletionShape`: what was observed of a completion's answer. -/
structure CompletionShape where
  requestAttempts : Option Nat := .none
  replayBlocked : Option Bool := .none
  operationAbortedVerified : Option Bool := .none
  body : CompletionBody
  xml : CompletionXml
  xmlNamespace : CompletionNamespace
  xmlParser : XmlParser
  sdkParser : SdkParser
  entityTagPresent : Bool
  bucketPresent : Bool
  keyPresent : Bool
  identityUnique : Bool
  deriving DecidableEq

/-- `publicCompletionShape`; the other checks of it are the types of the fields. -/
def publicCompletionShape (value : Option CompletionShape) : Option CompletionShape :=
  value.filter fun shape => shape.requestAttempts.all fun n => n == 0 || n == 1

/-! ## What is thrown -/

/-- An error of the SDK or of the connection, with what the storage reads of it. -/
structure ProviderError where
  name : Option String := none
  Code : Option String := none
  code : Option String := none
  httpStatusCode : Option Nat := none
  attempts : Option Nat := none

structure ExportOperationError where
  operation : Operation
  detail : Detail
  reason : Reason
  target : Target
  httpStatusCode : Option Nat
  providerCategory : Provider
  providerCode : ProviderCode
  responseKind : Option PublicationResponse
  requestAttempts : Option Nat := none
  wireHttpStatus : Option Nat := none
  completionShape : Option CompletionShape := none

inductive Stage
  | preflight
  | cleanup
  deriving DecidableEq

/-- `ExportDiagnostic`; the capability is the one the stage was at. -/
structure ExportDiagnostic where
  stage : Stage
  operation : Operation
  target : Target
  providerCategory : Provider
  providerCode : ProviderCode
  detail : Detail
  completion : Option CompletionShape
  httpStatus : Option Nat
  creationAcknowledged : Bool
  durableOwnershipProof : Bool
  objectCleanupPending : Bool
  multipartCleanupPending : Bool
  deriving DecidableEq

inductive Failure
  | provider (error : ProviderError)
  | operation (error : ExportOperationError)
  | temporary (reason : Reason)
  /-- the journal's own error: the write was not committed -/
  | journal
  | cleanup (diagnostic : ExportDiagnostic)

/-- The raw status an error or an answer carries in its metadata. -/
def Failure.rawStatus : Failure → Option Nat
  | .provider error => error.httpStatusCode
  | .operation error => error.httpStatusCode
  | _ => none

/-- A number that can be an HTTP status. -/
def httpStatus (n : Option Nat) : Option Nat := n.filter fun n => 100 ≤ n && n ≤ 599

/-- `exportHttpStatus` of a failure. -/
def Failure.exportHttpStatus (error : Failure) : Option Nat := httpStatus error.rawStatus

/-- `status(e)` of the storage. -/
def Failure.status (error : Failure) : Option Nat := error.rawStatus

/-- `absent(e)` of the storage. -/
def Failure.absent (error : Failure) : Bool := error.status == some 404

def tlsNames : List String :=
  ["DEPTH_ZERO_SELF_SIGNED_CERT", "SELF_SIGNED_CERT_IN_CHAIN", "UNABLE_TO_VERIFY_LEAF_SIGNATURE",
    "UNABLE_TO_GET_ISSUER_CERT_LOCALLY", "ERR_TLS_CERT_ALTNAME_INVALID", "CERT_HAS_EXPIRED"]

def networkNames : List String := ["ECONNRESET", "EPIPE", "ENOTFOUND", "ECONNREFUSED", "EAI_AGAIN"]

/-- `provider(error)` for an error that is not one of the storage's own. -/
def ProviderError.provider (error : ProviderError) : Provider :=
  let names := [error.name, error.code].reduceOption
  if names.any tlsNames.contains then .tlsValidation
  else if names.any networkNames.contains then .network
  else if names.contains "TimeoutError" || names.contains "ETIMEDOUT" then .deadline
  else if names.contains "AbortError" then .aborted
  else
    match httpStatus error.httpStatusCode with
    | some 401 => .accessDenied
    | some 403 => .accessDenied
    | some 405 => .unsupportedApi
    | some 501 => .unsupportedApi
    | some 404 => .notFound
    | some 412 => .preconditionFailed
    | some 409 => .conflict
    | _ => .serviceError

/-- `provider(error)` -/
def Failure.providerCategory : Failure → Provider
  | .provider error => error.provider
  | .operation error => error.providerCategory
  | .temporary _ => .invalidResponse
  | .journal => .serviceError
  | .cleanup _ => .invalidResponse

/-- `providerCode(error)` -/
def Failure.providerCode : Failure → ProviderCode
  | .provider error =>
      ((providerCodes.find? fun code =>
        [error.name, error.Code, error.code].contains (some code.1)).map (·.2)).getD .unrecognized
  | .operation error => error.providerCode
  | _ => .unrecognized

/-- The constructor of `ExportOperationError` around another failure. -/
def ExportOperationError.of (operation : Operation) (error : Failure) (detail : Detail)
    (reason : Reason) (target : Target) : ExportOperationError where
  operation := operation
  detail := detail
  reason := reason
  target := target
  httpStatusCode := error.exportHttpStatus
  providerCategory := if detail = .providerError then error.providerCategory else .invalidResponse
  providerCode := if detail = .providerError then error.providerCode else .unrecognized
  responseKind :=
    match error with
    | .operation inner => inner.responseKind
    | .provider inner =>
        if ["SyntaxError", "DeserializationError", "TypeError"].contains (inner.name.getD "") then
          some .sdkParsingError
        else if error.exportHttpStatus.isSome then some .providerError
        else some .transportError
    | _ => some .transportError
  requestAttempts :=
    (match error with
      | .operation inner => inner.requestAttempts
      | .provider inner => inner.attempts
      | _ => none).filter fun n => 1 ≤ n && n ≤ 100

/-- The same constructor around an answer that was refused. -/
def ExportOperationError.ofAnswer (operation : Operation) (httpStatusCode : Option Nat)
    (detail : Detail) (reason : Reason) (target : Target) : ExportOperationError :=
  .of operation (.provider { httpStatusCode := httpStatusCode }) detail reason target

end Pluton.WriteOnce
