-- SUMMARY: `TarReader`, the incremental reader of the archive, and `runManagedExport` around it.
import Pluton.Stream.Chunked
import Pluton.Tar.Proof

/-!
# The TAR reader

The second part of `backend/src/utils/restic/ManagedTarExport.ts`. The reader keeps a
header's bytes until there are 512 of them, lets payloads pass, and checks padding; an
extension's payload is kept and decoded at its end. An entry that the mode includes is
handed to the packer with a header of its own.

A stream is the list of its chunks. Aborting one is the end of what the session delivers.
-/
namespace Pluton.Tar

open Chunked

/-- `MAX_EXTENSION` -/
def maxExtension : Nat := 64 * 1024

/-! ## State -/

/-- The headers that extend the entry behind them. -/
inductive Extension where
  /-- `'x'` -/
  | pax
  /-- `'L'` -/
  | longName
  /-- `'K'` -/
  | longLink

inductive Magic where
  /-- `'ustar\0'` -/
  | posix
  /-- `'ustar '` -/
  | gnu
  deriving DecidableEq

/-- An entry as it went to the packer. -/
structure Emitted where
  entry : ManagedExportEntry
  header : PackedHeader
  payload : Bytes

/-- The entry under way: `entry`, `hash` and `output` of the source, which are set
together. The hash is the bytes it was updated with. -/
structure Current where
  entry : ManagedExportEntry
  hash : Option Bytes
  header : PackedHeader
  payload : Bytes

/-- The reader's state but for the count of raw bytes. `header` holds `headerBytes` bytes,
`extended` the concatenation of the kept parts. -/
structure Reading where
  header : Bytes
  remaining : Nat
  padding : Nat
  zeroHeaders : Nat
  extensions : Nat
  extensionBytes : Nat
  extendedType : Option Extension
  extended : Bytes
  pax : Option Pax
  longName : Option String
  longLink : Option String
  current : Option Current
  included : Nat
  /-- What the packer was given, in order. -/
  emitted : List Emitted
  proof : ManagedExportProof

structure TarReader extends Reading where
  rawBytes : Nat

/-- `new TarReader(...)` with the cursor it draws. -/
def TarReader.create (proof : ManagedExportProof) (cursor : String) : TarReader :=
  { header := [], remaining := 0, padding := 0, zeroHeaders := 0, extensions := 0,
    extensionBytes := 0, extendedType := none, extended := [], pax := none, longName := none,
    longLink := none, current := none, included := 0, emitted := [],
    proof := proof.createCursor cursor, rawBytes := 0 }

/-! ## Headers -/

/-- `(512 - (size % 512)) % 512` -/
def paddingOf (size : Nat) : Nat := (512 - size % 512) % 512

/-- The sum of the header's bytes, its checksum field read as spaces. -/
def headerSum (h : Bytes) : Nat :=
  ((h.zipIdx.map fun (byte, i) => if 148 ≤ i && i < 156 then 32 else byte.toNat)).sum

/-- The checksum, the magic and the version. -/
def readMagic (h : Bytes) : Except Failure Magic := do
  let checksum ← natural (subarray h 148 156)
  if headerSum h != checksum then invalid
  else
    let magic ← text (subarray h 257 263)
    if magic == "ustar\x00" then
      let version ← text (subarray h 263 265)
      if version != "00" then refuse .tarExtensionUnsupported else return .posix
    else if magic == "ustar " then
      if subarray h 263 265 != [32, 0] then refuse .tarExtensionUnsupported else return .gnu
    else refuse .tarExtensionUnsupported

/-- `h[156] || 48` as a character. -/
def typeFlag (h : Bytes) : Char :=
  let byte := h.getD 156 0
  if byte == 0 then '0' else Char.ofNat byte.toNat

def extensionOf (flag : Char) : Option Extension :=
  if flag == 'x' then some .pax
  else if flag == 'L' then some .longName
  else if flag == 'K' then some .longLink
  else none

/-- The flag of a node's type; a socket has none. -/
def flagOf : NodeType → Option Char
  | .file => some '0'
  | .dir => some '5'
  | .symlink => some '2'
  | .chardev => some '3'
  | .dev => some '4'
  | .fifo => some '6'
  | .socket => none

/-- A text is set and not empty. -/
def truthy (value : Option String) : Bool := value.any (· != "")

/-- The directory part of a POSIX header's name. -/
def nameFront (h : Bytes) : Magic → Except Failure String
  | .posix => field (subarray h 345 500)
  | .gnu => .ok ""

/-- The entry's name, without the slash a directory's name may end in. -/
def entryName (h : Bytes) (magic : Magic) (flag : Char) (pax : Pax)
    (longName longLink : Option String) : Except Failure String := do
  let short ← field (subarray h 0 100)
  let front ← nameFront h magic
  let name := if front != "" then front ++ "/" ++ short else short
  if (truthy longName && truthy (pax.get "path")) ||
    (truthy longLink && truthy (pax.get "linkpath")) then
    invalid
  else
    let name := ((pax.get "path").or longName).getD name
    let name :=
      if flag == '5' && Js.endsWith "/" name then String.ofList name.toList.dropLast else name
    if Js.startsWith "/" name then invalid else return name

/-- The node that the index has under the name, if the flag is the one of its type. -/
def indexedNode (index : ManagedSnapshotIndex) (flag : Char) (name : String) :
    Except Failure ManagedSnapshotNode := do
  let filePath ← managedSnapshotPath ("/" ++ name)
  match index.get filePath with
  | none => refuse .archiveEntryMismatch
  | some node => if some flag != flagOf node.type then refuse .archiveEntryMismatch else return node

/-- `pax.size === undefined ? rawSize : decimal(pax.size)` -/
def entrySize (pax : Pax) (rawSize : Nat) : Except Failure Nat :=
  match pax.get "size" with
  | none => .ok rawSize
  | some value => decimal value

/-- `pax.linkpath ?? this.longLink ?? field(...)` -/
def entryLink (h : Bytes) (pax : Pax) (longLink : Option String) : Except Failure String :=
  match (pax.get "linkpath").or longLink with
  | some link => .ok link
  | none => field (subarray h 157 257)

/-- The size and the link's target. -/
def entryShape (h : Bytes) (flag : Char) (pax : Pax) (longLink : Option String) (rawSize : Nat) :
    Except Failure (Nat × String) := do
  let size ← entrySize pax rawSize
  if (pax.get "size").isSome && rawSize != 0 && rawSize != size then invalid
  else
    let linkname ← entryLink h pax longLink
    if (flag != '0' && size != 0) || (flag != '2' && linkname != "") then invalid
    else return (size, linkname)

/-- What `extra` starts with: the access and change times of a GNU header. -/
def extraTimes (h : Bytes) : Magic → Except Failure Pax
  | .posix => .ok []
  | .gnu => do
    let offset ← natural (subarray h 369 381)
    if offset != 0 || (h.drop 381).any (· != 0) then refuse .tarExtensionUnsupported
    else
      let atime ← number true (subarray h 345 357)
      let ctime ← number true (subarray h 357 369)
      return [("atime", toString atime), ("ctime", toString ctime)]

/-- The keys that are fields of the metadata themselves. -/
def ownKeys : List String := ["path", "linkpath", "size", "uid", "gid", "uname", "gname"]

/-- One key of the loop that fills `extra`. -/
def keepKey (pax extra : Pax) (key : String) : Except Failure Pax := do
  if ownKeys.contains key then return extra
  else
    let value := (pax.get key).getD ""
    if ["mtime", "atime", "ctime"].contains key then
      let _ ← timestamp value
      return extra.set key value
    else return extra.set key value

/-- `pax[key] === undefined ? number(bytes) : decimal(pax[key])` -/
def ownerField (pax : Pax) (key : String) (bytes : Bytes) : Except Failure Nat :=
  match pax.get key with
  | none => natural bytes
  | some value => decimal value

/-- `pax[key] ?? field(bytes)` -/
def nameField (pax : Pax) (key : String) (bytes : Bytes) : Except Failure String :=
  match pax.get key with
  | none => field bytes
  | some value => .ok value

/-- The time of `pax.mtime`, or of the header. -/
def modifiedTime (pax : Pax) (bytes : Bytes) : Except Failure Int :=
  match pax.get "mtime" with
  | none => number true bytes >>= wholeTime
  | some value => timestamp value

def metadataType : NodeType → String
  | .dir => "directory"
  | type => type.text

/-- The metadata of an included entry. -/
def readMetadata (h : Bytes) (magic : Magic) (pax : Pax) (type : NodeType) (size : Nat)
    (linkname : String) : Except Failure Metadata := do
  let times ← extraTimes h magic
  let extra ← (Js.sort (pax.map (·.1))).foldlM (keepKey pax) times
  let mtime ← modifiedTime pax (subarray h 136 148)
  let mode ← natural (subarray h 100 108)
  let uid ← ownerField pax "uid" (subarray h 108 116)
  let gid ← ownerField pax "gid" (subarray h 116 124)
  let uname ← nameField pax "uname" (subarray h 265 297)
  let gname ← nameField pax "gname" (subarray h 297 329)
  if mode > 0o7777 || uid > 0xffffffff || gid > 0xffffffff || Js.length uname > 256 ||
      Js.length gname > 256 then invalid
  else
    return { type := metadataType type, size, mode, uid, gid, mtime, uname, gname,
             linkname := if type == .symlink then some linkname else none, pax := extra }

/-- A link's target is judged, whatever else an entry is passes. -/
def checkTarget (node : ManagedSnapshotNode) (linkname : String) : Except Failure Unit :=
  if node.type == .symlink then assertManagedLinkTarget node.path linkname else .ok ()

/-- The entry and the header of an included node. -/
def openEntry (proof : ManagedExportProof) (compare : Bool) (h : Bytes) (magic : Magic)
    (flag : Char) (pax : Pax) (name : String) (node : ManagedSnapshotNode) (size : Nat)
    (linkname : String) : Except Failure Current :=
  do
  let flagged := [NodeType.file, .dir, .symlink].contains node.type && flagOf node.type == some flag
  if !flagged || (node.type == .file && size != node.size) then refuse .archiveEntryMismatch
  else
    checkTarget node linkname
    let metadata ← readMetadata h magic pax node.type size linkname
    let entry : ManagedExportEntry :=
      { path := node.path
        type := node.type
        size
        sha256 := none
        linkTarget := if node.type == .symlink then some linkname else none
        metadata }
    if compare && (proof.get node.path).map (·.metadata) != some metadata then
      refuse .archiveContentMismatch
    else
      return { entry
               hash := if node.type == .file then some [] else none
               header := packedHeader name metadata
               payload := [] }

/-- The entry under way behind a header: none when the mode leaves the node out. -/
def openIncluded (proof : ManagedExportProof) (compare : Bool) (h : Bytes) (magic : Magic)
    (flag : Char) (pax : Pax) (name : String) (node : ManagedSnapshotNode) (size : Nat)
    (linkname : String) : Except Failure (Option Current) :=
  if exportIncludes proof.mode node.type then
    some <$> openEntry proof compare h magic flag pax name node size linkname
  else .ok none

/-! ## Reading -/

namespace Reading

section
variable (env : Platform) (index : ManagedSnapshotIndex) (compare : Bool) (cursor : String)

/-- The text of a long name or link, which ends in its only zero. -/
def longText (payload : Bytes) : Except Failure String :=
  if payload.getLast? != some 0 || payload.dropLast.contains 0 then invalid
  else text payload.dropLast

/-- `finishEntry` for an extension: its payload is decoded. -/
def finishExtension (r : Reading) : Extension → Except Failure Reading
  | .pax =>
    if r.pax.isSome then invalid
    else do
      let pax ← paxRecords r.extended
      return { r with pax := some pax }
  | .longName => do
    let value ← longText r.extended
    if truthy r.longName then invalid else return { r with longName := some value }
  | .longLink => do
    let value ← longText r.extended
    if truthy r.longLink then invalid else return { r with longLink := some value }

/-- An extension touches what it extends only. -/
theorem finishExtension_eq {r next : Reading} {extension : Extension}
    (h : r.finishExtension extension = .ok next) :
    ∃ pax longName longLink, next = { r with pax, longName, longLink } := by
  have hends : (r.finishExtension extension).Ends
      (fun next => ∃ pax longName longLink, next = { r with pax, longName, longLink })
      fun _ => True := by
    cases extension with
    | pax =>
        apply Except.Ends.ite
        · exact fun _ => trivial
        · exact fun _ => Except.ends_bind (fun pax _ => ⟨_, _, _, rfl⟩) fun _ _ => trivial
    | longName =>
        refine Except.ends_bind (fun value _ => ?_) fun _ _ => trivial
        exact Except.Ends.ite (fun _ => trivial) fun _ => ⟨_, _, _, rfl⟩
    | longLink =>
        refine Except.ends_bind (fun value _ => ?_) fun _ _ => trivial
        exact Except.Ends.ite (fun _ => trivial) fun _ => ⟨_, _, _, rfl⟩
  exact hends.of_ok h

/-- A finished entry is compared with the proof, or appended to it. -/
def settle (proof : ManagedExportProof) (entry : ManagedExportEntry) :
    Except Refusal ManagedExportProof :=
  if compare then
    if (proof.get entry.path).bind (·.sha256) != entry.sha256 then
      proof.refuse .archiveContentMismatch
    else .ok proof
  else proof.append env entry

/-- `finishEntry` for an entry, whose digest is set first. -/
def finishCurrent (r : Reading) (c : Current) : Except Refusal Reading := do
  let entry := { c.entry with sha256 := c.hash.map env.sha256 }
  let proof ← settle env compare r.proof entry
  return { r with
    proof
    current := none
    included := r.included + 1
    emitted := r.emitted ++ [{ entry, header := c.header, payload := c.payload }] }

def finishEntry (r : Reading) : Except Refusal Reading :=
  match r.extendedType with
  | some extension => do
    let next ← r.proof.attempt (r.finishExtension extension)
    return { next with extendedType := none, extended := [] }
  | none =>
    match r.current with
    | some c => r.finishCurrent env compare c
    | none => .ok r

/-- A header of an extension: the payload behind it is kept. -/
def startExtension (r : Reading) (extension : Extension) (rawSize : Nat) : Except Refusal Reading :=
  if rawSize < 1 || r.extensionBytes + rawSize > maxExtension || r.extensions + 1 > 3 then
    r.proof.refuse .tarMetadataLimit
  else
    .ok { r with
      extensionBytes := r.extensionBytes + rawSize
      extensions := r.extensions + 1
      extendedType := some extension
      extended := []
      remaining := rawSize
      padding := paddingOf rawSize }

/-- A header of an entry. It is looked up in the index and marked as seen; the extensions
in front of it are used up. -/
def startEntry (r : Reading) (h : Bytes) (magic : Magic) (flag : Char) (rawSize : Nat) :
    Except Refusal Reading := do
  let pax := r.pax.getD []
  let name ← r.proof.attempt (entryName h magic flag pax r.longName r.longLink)
  let node ← r.proof.attempt (indexedNode index flag name)
  let proof ← r.proof.seen env cursor node.path
  let (size, linkname) ← proof.attempt (entryShape h flag pax r.longLink rawSize)
  let current ← proof.attempt (openIncluded proof compare h magic flag pax name node size linkname)
  let next :=
    { r with
      proof
      current
      remaining := size
      padding := paddingOf size
      pax := none
      longName := none
      longLink := none
      extensions := 0
      extensionBytes := 0 }
  if size == 0 then next.finishEntry env compare else return next

/-- `readHeader` on the header `h`. -/
def readHeader (r : Reading) (h : Bytes) : Except Refusal Reading :=
  if h.all (· == 0) then
    if r.zeroHeaders + 1 > 128 then r.proof.refuse .tarMetadataLimit
    else .ok { r with zeroHeaders := r.zeroHeaders + 1 }
  else if r.zeroHeaders != 0 then r.proof.refuse .tarInvalid
  else do
    let magic ← r.proof.attempt (readMagic h)
    let flag := typeFlag h
    let rawSize ← r.proof.attempt (natural (subarray h 124 136))
    match extensionOf flag with
    | some extension => r.startExtension extension rawSize
    | none =>
      if ! ['0', '2', '3', '4', '5', '6'].contains flag then r.proof.refuse .tarExtensionUnsupported
      else r.startEntry env index compare cursor h magic flag rawSize

/-- A part of a payload passes: it is kept, or hashed and written. -/
def passPayload (r : Reading) (part : Bytes) : Reading :=
  { r with
    remaining := r.remaining - part.length
    extended := if r.extendedType.isSome then r.extended ++ part else r.extended
    current :=
      if r.extendedType.isSome then r.current
      else r.current.map fun c =>
        { c with hash := c.hash.map (· ++ part), payload := c.payload ++ part } }

/-- A part of the padding passes. -/
def passPadding (r : Reading) (part : Bytes) : Reading :=
  { r with padding := r.padding - part.length }

/-- How many bytes the reader takes at once. -/
def room (r : Reading) : Nat :=
  if r.remaining != 0 then r.remaining
  else if r.padding != 0 then r.padding
  else 512 - r.header.length

/-- One round of the loop of `consume`, on the bytes it takes. -/
def put (r : Reading) (part : Bytes) : Except Refusal Reading :=
  if r.remaining != 0 then
    let next := r.passPayload part
    if next.remaining == 0 then next.finishEntry env compare else .ok next
  else if r.padding != 0 then
    if part.any (· != 0) then r.proof.refuse .tarInvalid
    else .ok (r.passPadding part)
  else
    let header := r.header ++ part
    if header.length == 512 then
      { r with header := [] }.readHeader env index compare cursor header
    else .ok { r with header }

/-- The reader as a consumer of pieces. -/
def consumer : Consumer Reading Refusal UInt8 where
  room := room
  put := put env index compare cursor

end

end Reading

namespace TarReader

section
variable (env : Platform) (index : ManagedSnapshotIndex) (compare : Bool) (cursor : String)

def consume (r : TarReader) (bytes : Bytes) : Except Refusal TarReader :=
  let rawBytes := r.rawBytes + bytes.length
  if rawBytes > Js.maxSafeInteger then r.proof.refuse .tarInvalid
  else do
    let next ← (Reading.consumer env index compare cursor).consume r.toReading bytes
    return { next with rawBytes }

/-- A preparation checks the whole record, too. -/
def complete (proof : ManagedExportProof) : Except Refusal ManagedExportProof :=
  if compare then .ok proof else proof.validateCompleteness env

def finish (r : TarReader) : Except Refusal TarReader :=
  if r.header.length != 0 || r.remaining != 0 || r.padding != 0 || r.zeroHeaders < 2 ||
      r.rawBytes % 512 != 0 || r.extensions != 0 || r.extendedType.isSome then
    r.proof.refuse .tarInvalid
  else do
    let proof ← r.proof.flush env
    let expected := (proof.summary.map (·.includedEntries)).getD
      (ManagedExportProof.total proof.includedByType)
    if r.included != expected then proof.refuse .archiveIncomplete
    else
      let proof ← complete env compare proof
      return { r with proof }

/-- The reader over a whole stream. -/
def read (proof : ManagedExportProof) (chunks : List Bytes) : Except Refusal TarReader := do
  let reader ← chunks.foldlM (consume env index compare cursor) (create proof cursor)
  reader.finish env compare

end

end TarReader

/-! ## The export -/

/-- What `session.archive` writes, and whether it comes to its end. -/
structure Delivery where
  chunks : List Bytes
  complete : Bool

section
variable (env : Platform) (index : ManagedSnapshotIndex)

/-- The export between the reader's creation and its release. -/
def exportStream (proof : ManagedExportProof) (compare : Bool) (cursor : String)
    (delivery : Delivery) :
    Except Refusal (ManagedExportSummary × List Emitted × ManagedExportProof) := do
  let reader ← delivery.chunks.foldlM (TarReader.consume env index compare cursor)
    (TarReader.create proof cursor)
  if !delivery.complete then .error ⟨.interrupted, reader.proof⟩
  else
    let reader ← reader.finish env compare
    let proof := reader.proof
    let archive := env.pack (reader.emitted.map fun e => (e.header, e.payload))
    if archive.length > Js.maxSafeInteger then proof.refuse .tarInvalid
    else
      let digest := env.sha256 archive
      if compare then
        match proof.summary with
        | none => proof.refuse .exportProofMissing
        | some summary =>
          if summary.archiveSha256 != digest || summary.archiveBytes != archive.length then
            proof.refuse .archiveContentMismatch
          else return (summary, reader.emitted, proof)
      else
        let (summary, proof) ← proof.finish env digest archive.length
        return (summary, reader.emitted, proof)

/-- What an export ends with, beside the proof it leaves. -/
structure Exported where
  summary : ManagedExportSummary
  emitted : List Emitted

/-- What is checked before the stream is opened. -/
def beginExport (proof : ManagedExportProof) (compare : Bool) : Except Refusal ManagedExportProof :=
  do
  proof.attempt (index.assertExportEntries proof.mode)
  if compare then
    if proof.summary.isNone then proof.refuse .exportProofMissing else return proof
  else proof.reset

def runManagedExport (proof : ManagedExportProof) (compare : Bool) (cursor : String)
    (delivery : Delivery) : Except Failure Exported × ManagedExportProof :=
  match beginExport index proof compare with
  | .error refusal => (.error refusal.failure, refusal.proof)
  | .ok proof =>
    -- the cursor is released however the stream ends
    match exportStream env index proof compare cursor delivery with
    | .error refusal => (.error refusal.failure, refusal.proof.releaseCursor cursor)
    | .ok (summary, emitted, proof) => (.ok ⟨summary, emitted⟩, proof.releaseCursor cursor)

end

/-! ## An archive

The archive of one file `a` that holds `hi`, as `tar.pack` makes it. -/

def sampleField (size : Nat) (value : String) : Bytes :=
  value.toUTF8.data.toList ++ List.replicate (size - value.utf8ByteSize) 0

def sampleHeader : Bytes :=
  sampleField 100 "a" ++ sampleField 8 "000644 " ++ sampleField 8 "000000 " ++
    sampleField 8 "000000 " ++
    sampleField 12 "00000000002 " ++ sampleField 12 "00000000000 " ++ sampleField 8 "007320 " ++
    sampleField 1 "0" ++ sampleField 100 "" ++ sampleField 72 "ustar\x0000" ++
    sampleField 8 "000000 " ++ sampleField 175 "000000 "

def sampleArchive : Bytes := sampleHeader ++ sampleField 512 "hi" ++ List.replicate 1024 0

/-- The digests of the payload, of the manifest and of the archive. -/
def sampleSha256 (bytes : Bytes) : String :=
  if bytes.length = 2 then "8f434346648f6b96df89dda901c5176b10a6d83961dd3c1ac88b59b2dc327aa4"
  else if bytes.length = 400 then "d91667802e10dbdc4e183066a4900a2b8d4957103cd3164df5b504388343123c"
  else "caddf203d25d10e67c14a2040fd7b180f1ca8c6e4a9329809ae40dbb92eb896e"

def samplePlatform : Platform where
  sha256 := sampleSha256
  pack := fun _ => sampleArchive
  full := fun _ => false

def sampleIndex : ManagedSnapshotIndex := ⟨[⟨"/a", .file, 2⟩], by decide⟩

def sampleProof : ManagedExportProof := sampleIndex.exportProof ⟨[], [], []⟩ ⟨"b", "r", "s"⟩ .full

end Pluton.Tar
