-- SUMMARY: The framed export encryption: `ExportCipher`, its encryptor and its decryptor.
import Pluton.Stream.Chunked

/-!
# Export encryption

`backend/src/utils/managedExport/ExportEncryption.ts`. A plaintext is cut into
frames of `chunkBytes`; each is sealed with its own key, a nonce that ends in the
frame's index, and additional data that names the manifest, the index and the
frame's length. A range of the plaintext is read back from the frames that cover
it, each authenticated as a whole before any of it is yielded.

The primitives of `node:crypto` are parameters. Streams are the lists of their
chunks; aborting one is left out.
-/
namespace Pluton.Export

open Chunked

abbrev Bytes := List UInt8

/-- `EXPORT_CHUNK_BYTES` -/
def exportChunkBytes : Nat := 4 * 1024 ^ 2

/-- `TAG_BYTES` -/
def tagBytes : Nat := 16

/-- `EXPORT_LIMITS.maxObjectBytes` -/
def maxObjectBytes : Nat := 128 * 1024 ^ 3

/-- `Math.ceil(n / m)` -/
def ceilDiv (n m : Nat) : Nat := (n + m - 1) / m

def encryptedBytes (n : Nat) : Nat := n + ceilDiv n exportChunkBytes * tagBytes

/-- `buffer.subarray(lower, upper)` -/
def subarray {α : Type} (lower upper : Nat) (buffer : List α) : List α :=
  (buffer.take upper).drop lower

/-- `crypto.hkdfSync` with a text label, the hexadecimal SHA-256, and AES-256-GCM with
the tag at the end of the sealed bytes. -/
structure Primitives where
  hkdf : Bytes → Bytes → String → Bytes
  sha256 : Bytes → String
  gcmSeal : Bytes → Bytes → Bytes → Bytes → Bytes
  gcmOpen : Bytes → Bytes → Bytes → Bytes → Option Bytes

/-- `buffer.toString('hex')` -/
def toHex (bytes : Bytes) : String :=
  String.ofList (bytes.flatMap fun b =>
    [Nat.digitChar (b.toNat / 16), Nat.digitChar (b.toNat % 16)])

/-- A manifest that `manifestSchema` accepts and `open` finds consistent. -/
structure Manifest where
  chunkBytes : Nat
  plaintextBytes : Nat
  ciphertextBytes : Nat
  plaintextSha256 : String
  noncePrefix : Bytes
  salt : Bytes
  context : String
  chunkBytes_eq : chunkBytes = exportChunkBytes
  plaintextBytes_pos : 1 ≤ plaintextBytes
  plaintextBytes_le : plaintextBytes ≤ maxObjectBytes
  ciphertextBytes_eq : ciphertextBytes = encryptedBytes plaintextBytes
  noncePrefix_length : noncePrefix.length = 8

/-- The manifest of `ExportCipher.create`; the nonce prefix and the salt are drawn
at random. -/
def Manifest.create (bytes : Nat) (sha256 : String) (noncePrefix salt : Bytes)
    (context : String) : Option Manifest :=
  if h : 1 ≤ bytes ∧ bytes ≤ maxObjectBytes ∧ noncePrefix.length = 8 then
    some
      { chunkBytes := exportChunkBytes
        plaintextBytes := bytes
        ciphertextBytes := encryptedBytes bytes
        plaintextSha256 := sha256
        noncePrefix
        salt
        context
        chunkBytes_eq := rfl
        plaintextBytes_pos := h.1
        plaintextBytes_le := h.2.1
        ciphertextBytes_eq := rfl
        noncePrefix_length := h.2.2 }
  else none

/-- `JSON.stringify` of a text that needs no escapes. -/
def quoted (text : String) : String := "\"" ++ text ++ "\""

/-- `canonical`: the manifest as a JSON array. -/
def Manifest.canonical (m : Manifest) : String :=
  "[" ++ ",".intercalate
    ["1", quoted "AES-256-GCM-HKDF-SHA256", toString m.chunkBytes, toString m.plaintextBytes,
      toString m.ciphertextBytes, quoted m.plaintextSha256, quoted (toHex m.noncePrefix),
      quoted (toHex m.salt), quoted m.context] ++ "]"

/-- An open cipher. -/
structure ExportCipher where
  manifest : Manifest
  root : Bytes

/-- What a frame is sealed with. -/
structure Frame where
  key : Bytes
  iv : Bytes
  bytes : Nat
  aad : Bytes

/-- `writeUInt32BE` -/
def uint32BE (n : Nat) : Bytes :=
  [n / 2 ^ 24, n / 2 ^ 16, n / 2 ^ 8, n].map fun x => UInt8.ofNat (x % 256)

def utf8 (text : String) : Bytes := text.toUTF8.toList

namespace ExportCipher

variable (prim : Primitives) (c : ExportCipher)

def derive (label : String) : Bytes := prim.hkdf c.root c.manifest.salt label

/-- The number of frames. -/
def count : Nat := ceilDiv c.manifest.plaintextBytes c.manifest.chunkBytes

/-- The length of the plaintext of a frame. -/
def frameBytes (index : Nat) : Nat :=
  min c.manifest.chunkBytes (c.manifest.plaintextBytes - index * c.manifest.chunkBytes)

def frameKey (index : Nat) : Bytes := c.derive prim ("pluton-export-frame-v1:" ++ toString index)

def frameIv (index : Nat) : Bytes := c.manifest.noncePrefix ++ uint32BE index

def frameAad (index : Nat) : Bytes :=
  utf8 ("[" ++ ",".intercalate
    [quoted "pluton-export-frame-v1", quoted (prim.sha256 (utf8 c.manifest.canonical)),
      toString index, toString (c.frameBytes index)] ++ "]")

def frame (index : Nat) : Option Frame :=
  if index < c.count ∧ index < 2 ^ 32 then
    some ⟨c.frameKey prim index, c.frameIv index, c.frameBytes index, c.frameAad prim index⟩
  else none

/-- `seal` -/
def sealFrame (index : Nat) (plain : Bytes) : Option Bytes := do
  let f ← c.frame prim index
  guard (plain.length = f.bytes)
  return prim.gcmSeal f.key f.iv f.aad plain

/-- `unseal` -/
def unsealFrame (index : Nat) (encrypted : Bytes) : Option Bytes := do
  let f ← c.frame prim index
  guard (encrypted.length = f.bytes + tagBytes)
  prim.gcmOpen f.key f.iv f.aad encrypted

/-- The frames that cover a range of the plaintext, and the bytes of the ciphertext
that hold them, the last one included. -/
structure Selection where
  first : Nat
  last : Nat
  start : Nat
  end_ : Nat

/-- `range`; a bound that is negative or no integer is refused like one out of range. -/
def range (start end_ : Nat) : Option Selection :=
  let m := c.manifest
  if end_ < start ∨ m.plaintextBytes ≤ end_ then none
  else
    let first := start / m.chunkBytes
    let last := end_ / m.chunkBytes
    some
      { first
        last
        start := first * (m.chunkBytes + tagBytes)
        end_ := min m.ciphertextBytes ((last + 1) * (m.chunkBytes + tagBytes)) - 1 }

/-- What a stream has yielded, and whether it ended normally. -/
structure Yielded where
  output : Bytes
  ended : Bool

/-! ## Decryption -/

/-- The state of `decrypt` between two pieces: the index of the frame it reads, the
bytes of that frame so far, and what it has yielded. -/
structure Decrypting where
  index : Nat
  frame : Bytes
  output : Bytes

/-- The loop of `decrypt` over a chunk. A failure keeps what was yielded before. -/
def decryptor (start end_ last : Nat) : Consumer Decrypting Bytes UInt8 where
  room s := c.frameBytes s.index + tagBytes - s.frame.length
  put s piece :=
    if last < s.index then .error s.output
    else
      let frame := s.frame ++ piece
      if frame.length = c.frameBytes s.index + tagBytes then
        match c.unsealFrame prim s.index frame with
        | some plain =>
          let lower := start - s.index * c.manifest.chunkBytes
          let upper := min plain.length (end_ + 1 - s.index * c.manifest.chunkBytes)
          .ok ⟨s.index + 1, [], s.output ++ subarray lower upper plain⟩
        | none => .error s.output
      else .ok { s with frame }

def decrypt (source : List Bytes) (start end_ : Nat) : Yielded :=
  match c.range start end_ with
  | none => ⟨[], false⟩
  | some selection =>
    match source.foldlM (c.decryptor prim start end_ selection.last).consume
        ⟨selection.first, [], []⟩ with
    | .error output => ⟨output, false⟩
    | .ok s => ⟨s.output, s.frame.isEmpty && s.index = selection.last + 1⟩

/-! ## Encryption -/

/-- The state of `encrypt` between two pieces. -/
structure Encrypting where
  index : Nat
  buffer : Bytes
  output : Bytes

/-- The loop of `encrypt` over a chunk. -/
def encryptor : Consumer Encrypting Bytes UInt8 where
  room s := c.manifest.chunkBytes - s.buffer.length
  put s piece :=
    let buffer := s.buffer ++ piece
    if buffer.length = c.manifest.chunkBytes then
      match c.sealFrame prim s.index buffer with
      | some frame => .ok ⟨s.index + 1, [], s.output ++ frame⟩
      | none => .error s.output
    else .ok { s with buffer }

/-- One chunk of `encrypt`: the plaintext read so far is counted before the chunk
is used. -/
def encryptChunk (state : Encrypting × Bytes) (chunk : Bytes) :
    Except Bytes (Encrypting × Bytes) :=
  let plaintext := state.2 ++ chunk
  if c.manifest.plaintextBytes < plaintext.length then .error state.1.output
  else do
    let next ← (c.encryptor prim).consume state.1 chunk
    return (next, plaintext)

/-- `encrypt` of `archive`: the frames, as one stream. -/
def encrypt (input : List Bytes) : Yielded :=
  match input.foldlM (c.encryptChunk prim) (⟨0, [], []⟩, []) with
  | .error output => ⟨output, false⟩
  | .ok (s, plaintext) =>
    if plaintext.length ≠ c.manifest.plaintextBytes ∨
        prim.sha256 plaintext ≠ c.manifest.plaintextSha256 then ⟨s.output, false⟩
    else if s.buffer.isEmpty then ⟨s.output, true⟩
    else
      match c.sealFrame prim s.index s.buffer with
      | some frame => ⟨s.output ++ frame, true⟩
      | none => ⟨s.output, false⟩

end ExportCipher

end Pluton.Export
