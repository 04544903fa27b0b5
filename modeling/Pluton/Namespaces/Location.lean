-- SUMMARY: Canonical S3 locations, and the scope of a repository path on a storage.
import Pluton.Namespaces.Assertions
import Pluton.Namespaces.Reserve

/-!
# Locations

The functions the server injects at startup. An endpoint and a bucket make the
authority of a location, and what follows the bucket in the repository path is its
prefix; a path that is only a bucket is the whole bucket. URL parsing, decryption and
the table of providers are parameters.
-/
namespace Pluton.Namespaces.StorageSecurity

open Except

structure Url where
  protocol : String
  username : String
  password : String
  hostname : String
  port : String
  pathname : String
  search : String
  hash : String

def Url.origin (url : Url) : String :=
  url.protocol ++ "//" ++ url.hostname ++ (if url.port.isEmpty then "" else ":" ++ url.port)

structure Runtime where
  parse : String → Option Url
  decrypt : String → Option String
  /-- The provider types of rclone kind `s3`. -/
  s3Providers : List String
  toLowerCase : String → String

def hasControl (value : String) : Bool :=
  value.toList.any fun ch => ch.toNat < 32 || ch.toNat == 127

def isHostChar (ch : Char) : Bool := ('a' ≤ ch && ch ≤ 'z') || ch.isDigit

/-- `/^[a-z0-9][a-z0-9.-]*[a-z0-9]$/` -/
def validBucket (bucket : String) : Bool :=
  let chars := bucket.toList
  chars.length ≥ 2 && chars.head?.any isHostChar && chars.getLast?.any isHostChar &&
    chars.all fun ch => isHostChar ch || ch == '.' || ch == '-'

/-- `/^s3(?:[.-][a-z0-9-]+)?\.amazonaws\.com$/` -/
def isAwsHost (hostname : String) : Bool :=
  let tail := ".amazonaws.com"
  Js.endsWith tail hostname &&
    match hostname.toList.take (hostname.toList.length - tail.toList.length) with
    | ['s', '3'] => true
    | 's' :: '3' :: sep :: label =>
        (sep == '.' || sep == '-') && !label.isEmpty && label.all fun ch =>
          isHostChar ch || ch == '-'
    | _ => false

def invalidPart (part : String) : Bool :=
  part.isEmpty || part == "." || part == ".." ||
    part.toList.any (fun ch => ch == '\\' || ch == '%' || Js.isWhitespace ch) || hasControl part

variable (rt : Runtime)

def isS3Storage (type : Option String) : Bool :=
  type == some "s3" || rt.s3Providers.contains (type.getD "")

def httpsS3Endpoint (raw : String) : Except Failure Url :=
  if hasControl raw || raw.toList.any Js.isWhitespace then
    .error (.app 400 "An HTTPS S3 API endpoint is required.")
  else
    match rt.parse raw with
    | none => .error (.app 400 "An HTTPS S3 API endpoint is required.")
    | some endpoint =>
        if endpoint.protocol != "https:" || !endpoint.username.isEmpty ||
            !endpoint.password.isEmpty || !endpoint.search.isEmpty ||
            !endpoint.hash.isEmpty || endpoint.pathname != "/" ||
            endpoint.port == "8000" || endpoint.hostname.isEmpty then
          .error (.app 400
            "Use the HTTPS S3 API endpoint, without credentials, path, query or console port.")
        else
          let lowered := rt.toLowerCase endpoint.hostname
          .ok { endpoint with
            hostname :=
              if Js.endsWith "." lowered then String.ofList lowered.toList.dropLast else lowered }

/-- The endpoint's host without the bucket in front of it, and one host for all of AWS. -/
def canonicalHost (bucket hostname : String) : String :=
  let host := if Js.startsWith (bucket ++ ".") hostname then
    String.ofList (hostname.toList.drop (bucket.toList.length + 1)) else hostname
  if isAwsHost host then "s3.amazonaws.com" else host

def locate (endpoint : Url) (bucket repositoryPath : String) : Except Failure Scope :=
  if !validBucket bucket then .error (.app 400 "A valid existing bucket is required.")
  else
    match Js.split '/' (stripSlashes repositoryPath) with
    | first :: parts =>
        if first != bucket || parts.isEmpty || parts.any invalidPart then
          .error (.app 400
            ("Use a dedicated repository prefix within the configured S3 bucket; bucket " ++
            "roots are forbidden."))
        else
          .ok ⟨({ endpoint with hostname := canonicalHost bucket endpoint.hostname } : Url).origin
            ++ "/" ++ bucket,
            "/".intercalate parts⟩
    | [] => .error (.app 400 "A valid existing bucket is required.")

def canonicalS3Location (endpointInput bucket repositoryPath : String) : Except Failure Scope := do
  let endpoint ← httpsS3Endpoint rt endpointInput
  locate endpoint bucket repositoryPath

def s3Endpoint (storage : Storage) (credentials : Fields) : Except Failure Url :=
  match (truthy (credentials.lookup "endpoint")).or
    (truthy (storage.settings.lookup "endpoint")) with
  | some explicit => httpsS3Endpoint rt explicit
  | none =>
      if storage.type != some "s3" then httpsS3Endpoint rt ""
      else
        let region :=
          ((truthy (credentials.lookup "region")).or
            (truthy (storage.settings.lookup "region"))).getD
          "us-east-1"
        if region.isEmpty || !region.toList.all fun ch => isHostChar ch || ch == '-' then
          .error (.app 400 "Invalid S3 region.")
        else httpsS3Endpoint rt ("https://s3." ++ region ++ ".amazonaws.com")

/-- The fields a legacy row may still hold among its settings. -/
def s3SecretFields : List String :=
  ["access_key_id", "secret_access_key", "session_token", "sse_customer_key",
    "sse_customer_key_base64", "sse_customer_key_md5"]

def decryptFields (credentials : Fields) : Except Failure Fields :=
  credentials.mapM fun (key, value) =>
    match rt.decrypt value with
    | some plain => .ok (key, plain)
    | none => .error (.app 500 "Storage credentials could not be decrypted.")

def decryptStorageCredentials (storage : Storage) : Except Failure Fields := do
  let credentials ← decryptFields rt storage.credentials
  let legacy := s3SecretFields.filterMap fun key =>
    if (credentials.lookup key).isSome then none
    else (truthy (storage.settings.lookup key)).map fun value => (key, value)
  return if isS3Storage rt storage.type then credentials ++ legacy else credentials

/-- The path, or the bucket where there is none. -/
def scopePath (credentials : Fields) (repositoryPath : Option String) : Option String :=
  (truthy (some (stripSlashes (repositoryPath.getD "")))).or (credentials.lookup "bucket")

def plaintextOf (storage : Storage) (plaintext : Option Fields) : Except Failure Fields :=
  match plaintext with
  | some credentials => .ok credentials
  | none => decryptStorageCredentials rt storage

def s3RepositoryScope (storage : Storage) (repositoryPath : Option String)
    (plaintext : Option Fields) : Except Failure Scope :=
  do
  let credentials ← plaintextOf rt storage plaintext
  let path := (scopePath credentials repositoryPath).getD "undefined"
  let root := !Js.includes '/' path
  refuseIf (!isS3Storage rt storage.type) (.app 400 "S3 storage is required.")
  let endpoint ← s3Endpoint rt storage credentials
  let identity ← locate endpoint ((credentials.lookup "bucket").getD "")
    (if root then path ++ "/scope-placeholder" else path)
  return ⟨identity.authority, if root then "" else identity.keyPrefix⟩

/-- What the server configures at startup. -/
def Runtime.security : NamespaceSecurity where
  canonicalS3Location := StorageSecurity.canonicalS3Location rt
  s3RepositoryScope := StorageSecurity.s3RepositoryScope rt
  decryptStorageCredentials := StorageSecurity.decryptStorageCredentials rt
  isS3Storage type := .ok (StorageSecurity.isS3Storage rt type)

end Pluton.Namespaces.StorageSecurity
