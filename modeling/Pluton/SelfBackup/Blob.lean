-- SUMMARY: The single encrypted artifact of a self-backup: its header, `sealBlob` and `openBlob`.
import Pluton.BigEndian
import Pluton.Ends

/-!
# The blob of a self-backup

`backend/src/utils/selfBackup/blobFormat.ts`:

    MAGIC(4) | version(2) | memory(4) | passes(4) | parallelism(4) | salt(16) | nonce(12)
      | ciphertext | tag(16)

The header is not authenticated. argon2id and AES-256-GCM are parameters; argon2id may
refuse its parameters. The salt and the nonce that `sealBlob` draws are arguments.
-/
namespace Pluton.SelfBackup

open Except BigEndian

abbrev Bytes := List UInt8

def MAGIC : String := "PLBK"

def FORMAT_VERSION : Nat := 1

def MAGIC_LEN : Nat := 4

def VERSION_LEN : Nat := 2

def KDF_PARAMS_LEN : Nat := 12

def SALT_LEN : Nat := 16

def NONCE_LEN : Nat := 12

def TAG_LEN : Nat := 16

def HEADER_LEN : Nat := MAGIC_LEN + VERSION_LEN + KDF_PARAMS_LEN + SALT_LEN + NONCE_LEN

/-- Memory cost in KiB, iterations and lanes. -/
structure KdfParams where
  memory : Nat
  passes : Nat
  parallelism : Nat
  deriving DecidableEq

def ARGON2_DEFAULTS : KdfParams := ⟨65536, 3, 1⟩

/-! ## `KDF_LIMITS` -/

def maxMemory : Nat := 1024 * 1024

def minMemory : Nat := 8

def maxPasses : Nat := 10

def maxParallelism : Nat := 4

def inRange (value min max : Nat) : Bool := min ≤ value && value ≤ max

/-- The parameters are within `KDF_LIMITS`. -/
def KdfParams.isSane (kdf : KdfParams) : Bool :=
  inRange kdf.memory minMemory maxMemory && inRange kdf.passes 1 maxPasses &&
    inRange kdf.parallelism 1 maxParallelism

def unreasonable (what : String) : String :=
  "Blob header asks for an unreasonable KDF " ++ what ++
    ". The file is corrupt or was not written by Pluton."

def assertSaneKdfParams (kdf : KdfParams) : Except String Unit := do
  refuseIf (!inRange kdf.memory minMemory maxMemory)
    (unreasonable ("memory cost (" ++ toString kdf.memory ++ " KiB)"))
  refuseIf (!inRange kdf.passes 1 maxPasses)
    (unreasonable ("pass count (" ++ toString kdf.passes ++ ")"))
  refuseIf (!inRange kdf.parallelism 1 maxParallelism)
    (unreasonable ("parallelism (" ++ toString kdf.parallelism ++ ")"))

/-! ## The header -/

structure ParsedHeader where
  version : Nat
  kdf : KdfParams
  salt : Bytes
  nonce : Bytes
  bodyOffset : Nat
  deriving DecidableEq

/-- `header.write(text, offset, 'ascii')` writes the low byte of each character. -/
def asciiBytes (text : String) : Bytes := text.toList.map fun ch => UInt8.ofNat ch.toNat

/-- `buf.toString('ascii')` drops the highest bit of each byte. -/
def asciiText (bytes : Bytes) : String :=
  String.ofList (bytes.map fun byte => Char.ofNat (byte &&& 0x7F).toNat)

/-- `header.writeUInt16BE` and `header.writeUInt32BE` -/
def writeUInt (width value offset : Nat) (buf : Bytes) : Except String Bytes := do
  refuseIf (decide (256 ^ width ≤ value)) "The value of \"value\" is out of range."
  return write buf offset (encode width value)

/-- `buf.readUInt16BE` and `buf.readUInt32BE` -/
def readUInt (width offset : Nat) (buf : Bytes) : Nat := decode (field buf offset width)

def encodeHeader (kdf : KdfParams) (salt nonce : Bytes) : Except String Bytes := do
  refuseIf (salt.length != SALT_LEN)
    ("salt must be " ++ toString SALT_LEN ++ " bytes, got " ++ toString salt.length)
  refuseIf (nonce.length != NONCE_LEN)
    ("nonce must be " ++ toString NONCE_LEN ++ " bytes, got " ++ toString nonce.length)
  let offset := 0
  let header := write (List.replicate HEADER_LEN 0) offset (asciiBytes MAGIC)
  let offset := offset + MAGIC_LEN
  let header ← writeUInt 2 FORMAT_VERSION offset header
  let offset := offset + VERSION_LEN
  let header ← writeUInt 4 kdf.memory offset header
  let offset := offset + 4
  let header ← writeUInt 4 kdf.passes offset header
  let offset := offset + 4
  let header ← writeUInt 4 kdf.parallelism offset header
  let offset := offset + 4
  let header := write header offset salt
  let offset := offset + SALT_LEN
  return write header offset nonce

def parseHeader (buf : Bytes) : Except String ParsedHeader := do
  refuseIf (decide (buf.length < HEADER_LEN + TAG_LEN))
    "Not a Pluton backup blob: file is too small."
  let offset := 0
  let magic := asciiText (field buf offset MAGIC_LEN)
  refuseIf (magic != MAGIC)
    ("Not a Pluton backup blob: expected magic '" ++ MAGIC ++ "', found '" ++ magic ++ "'.")
  let offset := offset + MAGIC_LEN
  let version := readUInt 2 offset buf
  let offset := offset + VERSION_LEN
  refuseIf (version != FORMAT_VERSION)
    ("Unsupported blob format version " ++ toString version ++
      ". This Pluton understands version " ++
      toString FORMAT_VERSION ++ ". The blob was probably written by a newer Pluton.")
  let memory := readUInt 4 offset buf
  let offset := offset + 4
  let passes := readUInt 4 offset buf
  let offset := offset + 4
  let parallelism := readUInt 4 offset buf
  let offset := offset + 4
  let salt := field buf offset SALT_LEN
  let offset := offset + SALT_LEN
  let nonce := field buf offset NONCE_LEN
  let offset := offset + NONCE_LEN
  let kdf := ⟨memory, passes, parallelism⟩
  assertSaneKdfParams kdf
  return { version, kdf, salt, nonce, bodyOffset := offset }

/-! ## Sealing and opening -/

/-- argon2id of a password, a salt and parameters, and AES-256-GCM: a key, a nonce and a
plaintext are sealed to a ciphertext and its tag. -/
structure Primitives (Key : Type) where
  deriveKey : String → Bytes → KdfParams → Except String Key
  gcmSeal : Key → Bytes → Bytes → Bytes × Bytes
  gcmOpen : Key → Bytes → Bytes → Bytes → Option Bytes

section

variable {Key : Type} (prim : Primitives Key)

def sealBlob (tar : Bytes) (password : String) (kdf : KdfParams) (salt nonce : Bytes) :
    Except String Bytes := do
  let key ← prim.deriveKey password salt kdf
  let (ciphertext, tag) := prim.gcmSeal key nonce tar
  let header ← encodeHeader kdf salt nonce
  return header ++ ciphertext ++ tag

def openBlob (blob : Bytes) (password : String) : Except String Bytes := do
  let header ← parseHeader blob
  let tag := blob.drop (blob.length - TAG_LEN)
  let ciphertext := (blob.take (blob.length - TAG_LEN)).drop header.bodyOffset
  let key ← prim.deriveKey password header.salt header.kdf
  match prim.gcmOpen key header.nonce ciphertext tag with
  | some tar => return tar
  | none =>
      .error "Could not decrypt the blob. The encryption key is wrong, or the file is corrupt."

end

end Pluton.SelfBackup
