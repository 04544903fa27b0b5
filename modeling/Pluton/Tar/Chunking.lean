-- SUMMARY: The TAR reader's verdict and output do not depend on how the archive is cut into chunks.
import Pluton.Tar.Reader

/-!
# Chunking

A chunk may end anywhere: in a header, in an extension, in a payload or in padding.
The reader is a lawful consumer in all of these phases, so what it does with a stream
is what it does with the stream's bytes one by one.
-/
namespace Pluton.Tar

open Chunked

namespace Reading

section
variable {env : Platform} {index : ManagedSnapshotIndex} {compare : Bool} {cursor : String}
  {r : Reading}

/-! ## The header buffer -/

/-- The buffer is the one of `r`; failures are free. -/
def KeepsHeader (r : Reading) (x : Except Refusal Reading) : Prop :=
  x.Ends (fun next => next.header = r.header) fun _ => True

theorem finishEntry_header (r : Reading) : r.KeepsHeader (r.finishEntry env compare) := by
  unfold finishEntry
  cases r.extendedType with
  | some extension =>
      apply ManagedExportProof.attempt_bind_ends
      · intro next hnext
        obtain ⟨pax, longName, longLink, rfl⟩ := finishExtension_eq hnext
        rfl
      · exact fun _ => trivial
  | none =>
      cases r.current with
      | none => exact rfl
      | some c => exact Except.ends_bind (fun _ _ => rfl) fun _ _ => trivial

theorem startEntry_header (r : Reading) (h : Bytes) (magic : Magic) (flag : Char) (rawSize : Nat) :
    r.KeepsHeader (r.startEntry env index compare cursor h magic flag rawSize) := by
  unfold startEntry
  refine Except.ends_bind (fun name _ => ?_) fun _ _ => trivial
  refine Except.ends_bind (fun node _ => ?_) fun _ _ => trivial
  refine Except.ends_bind (fun proof _ => ?_) fun _ _ => trivial
  refine Except.ends_bind (fun shape _ => ?_) fun _ _ => trivial
  refine Except.ends_bind (fun current _ => ?_) fun _ _ => trivial
  exact Except.Ends.ite (fun _ => finishEntry_header _) fun _ => rfl

theorem readHeader_header (r : Reading) (h : Bytes) :
    r.KeepsHeader (r.readHeader env index compare cursor h) := by
  unfold readHeader
  apply Except.Ends.ite
  · exact fun _ => Except.Ends.ite (fun _ => trivial) fun _ => rfl
  intro _
  apply Except.Ends.ite
  · exact fun _ => trivial
  intro _
  refine Except.ends_bind (fun magic _ => ?_) fun _ _ => trivial
  refine Except.ends_bind (fun rawSize _ => ?_) fun _ _ => trivial
  cases extensionOf (typeFlag h) with
  | some extension => exact Except.Ends.ite (fun _ => trivial) fun _ => rfl
  | none => exact Except.Ends.ite (fun _ => trivial) fun _ => startEntry_header r h magic _ rawSize

/-! ## One round

What `put` does in each of the three phases. -/

variable (env index compare cursor)

theorem put_payload (h : r.remaining ≠ 0) (part : Bytes) :
    r.put env index compare cursor part =
      if (r.passPayload part).remaining = 0 then (r.passPayload part).finishEntry env compare
      else .ok (r.passPayload part) := by
  simp [put, h]

theorem put_padding (h : r.remaining = 0) (hpad : r.padding ≠ 0) (part : Bytes) :
    r.put env index compare cursor part =
      if part.any (· != 0) then r.proof.refuse .tarInvalid
      else .ok (r.passPadding part) := by
  simp [put, h, hpad]

theorem put_header (h : r.remaining = 0) (hpad : r.padding = 0) (part : Bytes) :
    r.put env index compare cursor part =
      if (r.header ++ part).length = 512 then
        readHeader env index compare cursor { r with header := [] } (r.header ++ part)
      else .ok { r with header := r.header ++ part } := by
  simp [put, h, hpad]

@[simp] theorem passPayload_remaining (r : Reading) (part : Bytes) :
    (r.passPayload part).remaining = r.remaining - part.length := rfl

@[simp] theorem passPayload_header (r : Reading) (part : Bytes) :
    (r.passPayload part).header = r.header := rfl

theorem passPadding_append (r : Reading) (part part' : Bytes) :
    (r.passPadding part).passPadding part' = r.passPadding (part ++ part') := by
  simp [passPadding, Nat.sub_sub]

theorem passPayload_append (r : Reading) (part part' : Bytes) :
    (r.passPayload part).passPayload part' = r.passPayload (part ++ part') := by
  unfold passPayload
  by_cases hext : r.extendedType.isSome
  · simp [hext, Nat.sub_sub]
  · cases hcurrent : r.current with
    | none => simp [hext, Nat.sub_sub]
    | some c => cases c.hash <;> simp [hext, Nat.sub_sub, Function.comp_def]

/-! ## The reader is lawful -/

theorem put_header_lt {r next : Reading} {b : UInt8} (hr : r.header.length < 512)
    (hput : r.put env index compare cursor [b] = .ok next) : next.header.length < 512 := by
  by_cases hrem : r.remaining = 0
  · by_cases hpad : r.padding = 0
    · rw [put_header env index compare cursor hrem hpad] at hput
      split at hput
      next =>
        have hkeep := (readHeader_header { r with header := [] } (r.header ++ [b])).of_ok hput
        rw [hkeep]
        exact Nat.succ_pos _
      next hshort =>
        cases hput
        simp only [List.length_append, List.length_singleton] at hshort ⊢
        omega
    · rw [put_padding env index compare cursor hrem hpad] at hput
      split at hput
      · cases hput
      · cases hput
        exact hr
  · rw [put_payload env index compare cursor hrem] at hput
    split at hput
    · rw [(finishEntry_header (r.passPayload [b])).of_ok hput]
      exact hr
    · cases hput
      exact hr

theorem room_put {r next : Reading} {b : UInt8} (hroom : 1 < r.room)
    (hput : r.put env index compare cursor [b] = .ok next) : next.room = r.room - 1 := by
  by_cases hrem : r.remaining = 0
  · by_cases hpad : r.padding = 0
    · simp only [room, hrem, hpad, bne_self_eq_false, Bool.false_eq_true, if_false] at hroom ⊢
      have hlen : (r.header ++ [b]).length ≠ 512 := by
        simp only [List.length_append, List.length_singleton]
        omega
      rw [put_header env index compare cursor hrem hpad, if_neg hlen] at hput
      cases hput
      simp [hrem, hpad, Nat.sub_sub]
    · simp only [room, hrem, hpad, bne_self_eq_false, Bool.false_eq_true,
        if_false, bne_iff_ne, ne_eq, not_false_eq_true, if_true] at hroom ⊢
      rw [put_padding env index compare cursor hrem hpad] at hput
      split at hput
      · cases hput
      · cases hput
        have hleft : r.padding - 1 ≠ 0 := by omega
        simp [passPadding, hrem, hleft]
  · simp only [room, hrem, bne_iff_ne, ne_eq, not_false_eq_true, if_true] at hroom ⊢
    have hleft : r.remaining - 1 ≠ 0 := by omega
    rw [put_payload env index compare cursor hrem, passPayload_remaining, List.length_singleton,
      if_neg hleft] at hput
    cases hput
    simp [hleft]

theorem put_split {b b' : UInt8} {bs : Bytes} (hroom : (b :: b' :: bs).length ≤ r.room) :
    r.put env index compare cursor (b :: b' :: bs) =
      r.put env index compare cursor [b] >>= fun next =>
        next.put env index compare cursor (b' :: bs) := by
  by_cases hrem : r.remaining = 0
  · by_cases hpad : r.padding = 0
    · simp only [room, hrem, hpad, bne_self_eq_false, Bool.false_eq_true, if_false,
        List.length_cons] at hroom
      have hlen : (r.header ++ [b]).length ≠ 512 := by
        simp only [List.length_append, List.length_singleton]
        omega
      rw [put_header env index compare cursor hrem hpad,
        put_header env index compare cursor hrem hpad, if_neg hlen]
      -- the buffer of the second round is that of the first with the byte
      have hnext := put_header env index compare cursor (r := { r with header := r.header ++ [b] })
        hrem hpad (b' :: bs)
      simp only [List.append_assoc, List.singleton_append] at hnext
      exact hnext.symm
    · simp only [room, hrem, hpad, bne_self_eq_false, Bool.false_eq_true,
        if_false, bne_iff_ne, ne_eq, not_false_eq_true, if_true, List.length_cons] at hroom
      have hleft : r.padding - 1 ≠ 0 := by omega
      rw [put_padding env index compare cursor hrem hpad,
        put_padding env index compare cursor hrem hpad]
      by_cases hb : b = 0
      · have hnext :=
          put_padding env index compare cursor (r := r.passPadding [b]) hrem hleft (b' :: bs)
        rw [passPadding_append] at hnext
        have hpass : ¬[b].any (· != 0) = true := by simp [hb]
        have hany : (b :: b' :: bs).any (· != 0) = (b' :: bs).any (· != 0) := by simp [hb]
        rw [if_neg hpass, hany]
        exact hnext.symm
      · simp [hb, ManagedExportProof.refuse, bind, Except.bind]
  · simp only [room, hrem, bne_iff_ne, ne_eq, not_false_eq_true, if_true, List.length_cons] at hroom
    have hleft : (r.passPayload [b]).remaining ≠ 0 := by
      simp only [passPayload_remaining, List.length_singleton]
      omega
    rw [put_payload env index compare cursor hrem,
      put_payload env index compare cursor hrem, if_neg hleft]
    have hnext := put_payload env index compare cursor hleft (b' :: bs)
    rw [passPayload_append] at hnext
    exact hnext.symm

theorem lawful : Lawful (consumer env index compare cursor) fun r => r.header.length < 512 where
  room_pos := by
    intro r hr
    simp only [consumer, room, bne_iff_ne, ne_eq, ite_not]
    split
    · split
      · omega
      · omega
    · omega
  keep := put_header_lt env index compare cursor
  room_step := fun _ => room_put env index compare cursor
  split := fun _ => put_split env index compare cursor

end

end Reading

/-! ## Streams -/

namespace TarReader

def zeros (count : Nat) : Bytes := List.replicate count 0

section
variable (env : Platform) (index : ManagedSnapshotIndex) (compare : Bool) (cursor : String)
  {r : TarReader} {chunks : List Bytes} {p : ManagedExportProof} {block : Bytes}

/-- The reader fed with the stream's bytes, which it counts in one go. -/
def bytes (r : TarReader) (stream : Bytes) : Except Refusal TarReader := do
  let next ← (Reading.consumer env index compare cursor).bytes r.toReading stream
  return { next with rawBytes := r.rawBytes + stream.length }

theorem consume_eq_bytes {chunk : Bytes} (hr : r.header.length < 512)
    (hraw : r.rawBytes + chunk.length ≤ Js.maxSafeInteger) :
    r.consume env index compare cursor chunk = r.bytes env index compare cursor chunk := by
  unfold consume bytes
  rw [if_neg (Nat.not_lt.mpr hraw), (Reading.lawful env index compare cursor).consume_eq_bytes hr]

/-- Up to the largest safe length, chunks are their concatenation. -/
theorem foldlM_consume (hr : r.header.length < 512)
    (hraw : r.rawBytes + chunks.flatten.length ≤ Js.maxSafeInteger) :
    chunks.foldlM (consume env index compare cursor) r =
      r.bytes env index compare cursor chunks.flatten := by
  induction chunks generalizing r with
  | nil => rfl
  | cons chunk chunks ih =>
      have hlen : (chunk :: chunks).flatten.length = chunk.length + chunks.flatten.length := by simp
      rw [List.foldlM_cons, consume_eq_bytes env index compare cursor hr (by omega)]
      unfold bytes
      rw [List.flatten_cons, Consumer.bytes_append]
      cases hnext : (Reading.consumer env index compare cursor).bytes r.toReading chunk with
      | error refusal => rfl
      | ok next =>
          have hheader : next.header.length < 512 :=
            (Reading.lawful env index compare cursor).keep_bytes hr hnext
          have hrest := ih (r := { next with rawBytes := r.rawBytes + chunk.length }) hheader
            (by simp only; omega)
          simp only [bytes, Nat.add_assoc] at hrest
          simpa [bind, Except.bind, pure, Except.pure] using hrest

/-! ## Pieces the reader asked for

A chunk that is as long as the reader's room is one round. -/

theorem consume_header (hremaining : r.remaining = 0) (hpadding : r.padding = 0)
    (hheader : r.header = []) (hlength : block.length = 512)
    (hsafe : r.rawBytes + 512 ≤ Js.maxSafeInteger) :
    r.consume env index compare cursor block =
      (r.toReading.readHeader env index compare cursor block).map fun next =>
        { next with rawBytes := r.rawBytes + 512 } := by
  have hne : block ≠ [] := List.ne_nil_of_length_pos (by omega)
  have hroom : block.length ≤ (Reading.consumer env index compare cursor).room r.toReading := by
    simp [Reading.consumer, Reading.room, hremaining, hpadding, hheader, hlength]
  have hput : (Reading.consumer env index compare cursor).put r.toReading block =
      r.toReading.readHeader env index compare cursor block := by
    have hsame : { r.toReading with header := [] } = r.toReading := by
      rw [← hheader]
    refine (Reading.put_header env index compare cursor hremaining hpadding block).trans ?_
    rw [hheader, List.nil_append, if_pos hlength]
    exact congrArg (fun r => Reading.readHeader env index compare cursor r block) hsame
  unfold consume
  rw [hlength, if_neg (Nat.not_lt.mpr hsafe), Consumer.consume_eq_put _ hne hroom, hput]
  cases r.toReading.readHeader env index compare cursor block <;> rfl

/-- The entry of an ordinary file, under a header that says what the index says. -/
theorem openIncluded_file {proof : ManagedExportProof} {compare : Bool} {h : Bytes} {magic : Magic}
    {pax : Pax} {metadata : Metadata} (name linkname : String) (node : ManagedSnapshotNode)
    (hmode : exportIncludes proof.mode .file = true) (htype : node.type = .file)
    (htarget : checkTarget node linkname = .ok ()) (hflag : flagOf .file = some '0')
    (hmetadata : readMetadata h magic pax .file node.size linkname = .ok metadata)
    (hget : compare = true → (proof.get node.path).map (·.metadata) = some metadata) :
    openIncluded proof compare h magic '0' pax name node node.size linkname =
      .ok (some { entry := { path := node.path, type := .file, size := node.size,
                             sha256 := none, linkTarget := none,
                             metadata }
                  hash := some [], header := packedHeader name metadata, payload := [] }) := by
  have hmatches : ¬(compare && (proof.get node.path).map (·.metadata) != some metadata) = true := by
    cases compare with
    | false => simp
    | true => simp [hget rfl]
  unfold openIncluded openEntry
  simp only [htype, hmode, hflag, htarget, hmetadata, if_neg hmatches, bind,
    Except.bind, if_true, BEq.rfl, bne_self_eq_false, Bool.and_false, Bool.and_true, Bool.or_false,
    List.contains_cons, Bool.true_or, Bool.not_true, Bool.false_eq_true, if_false]
  rfl

theorem readHeader_entry {r : Reading} {h : Bytes} {magic : Magic} {flag : Char}
    {rawSize size : Nat} {name linkname : String} {node : ManagedSnapshotNode}
    {current : Option Current} (hany : h.all (· == 0) = false) (hzeros : r.zeroHeaders = 0)
    (hmagic : readMagic h = .ok magic) (hflag : typeFlag h = flag)
    (hraw : natural (subarray h 124 136) = .ok rawSize) (hextension : extensionOf flag = none)
    (hknown : ['0', '2', '3', '4', '5', '6'].contains flag = true)
    (hname : entryName h magic flag (r.pax.getD []) r.longName r.longLink = .ok name)
    (hnode : indexedNode index flag name = .ok node) (hseen : r.proof.seen env cursor node.path = .ok p) (hshape : entryShape h flag (r.pax.getD []) r.longLink rawSize = .ok (size, linkname))
    (hopened : openIncluded p compare h magic flag
      (r.pax.getD []) name node size linkname = .ok current)
    (hsize : size ≠ 0) :
    r.readHeader env index compare cursor h =
      .ok { r with
        proof := p
        current
        remaining := size
        padding := paddingOf size
        pax := none
        longName := none
        longLink := none
        extensions := 0
        extensionBytes := 0 } := by
  have hpositive : ¬(size == 0) = true := by simpa using hsize
  unfold Reading.readHeader
  rw [hany, if_neg Bool.false_ne_true, if_neg (by simp [hzeros]), hmagic, hflag, hraw]
  simp only [ManagedExportProof.attempt, bind, Except.bind, Except.mapError, hextension,
    hknown, Bool.not_true, Bool.false_eq_true, if_false]
  unfold Reading.startEntry
  simp only [ManagedExportProof.attempt, Except.mapError, bind, Except.bind, hname, hnode,
    hseen, hshape, hopened, if_neg hpositive]
  rfl

/-- The last part of a payload finishes the entry. -/
theorem consume_last {c : Current} {part : Bytes} (hne : part ≠ [])
    (hremaining : r.remaining = part.length) (hextended : r.extendedType = none)
    (hcurrent : r.current = some c) (hsafe : r.rawBytes + part.length ≤ Js.maxSafeInteger) :
    r.consume env index compare cursor part =
      (Reading.settle env compare r.proof
          { c.entry with sha256 := (c.hash.map (· ++ part)).map env.sha256 }).map fun proof =>
        { r with
          remaining := 0
          proof
          current := none
          included := r.included + 1
          emitted := r.emitted ++
            [{ entry := { c.entry with sha256 := (c.hash.map (· ++ part)).map env.sha256 },
               header := c.header, payload := c.payload ++ part }]
          rawBytes := r.rawBytes + part.length } := by
  have hroom : part.length ≤ (Reading.consumer env index compare cursor).room r.toReading := by
    simp [Reading.consumer, Reading.room, hremaining, hne]
  have hput : (Reading.consumer env index compare cursor).put r.toReading part =
      (r.toReading.passPayload part).finishCurrent env compare
        { c with hash := c.hash.map (· ++ part), payload := c.payload ++ part } := by
    simp [Reading.consumer, Reading.put, Reading.passPayload, Reading.finishEntry, hremaining, hne,
      hextended, hcurrent]
  unfold consume
  rw [if_neg (Nat.not_lt.mpr hsafe), Consumer.consume_eq_put _ hne hroom, hput]
  unfold Reading.finishCurrent Reading.passPayload
  dsimp only
  rw [hremaining, Nat.sub_self, hextended]
  cases Reading.settle env compare r.proof
    { c.entry with sha256 := (c.hash.map (· ++ part)).map env.sha256 } <;> rfl

theorem any_zeros (count : Nat) : (zeros count).any (· != 0) = false := by
  simp [zeros]

theorem all_zeros (count : Nat) : (zeros count).all (· == 0) = true := by
  simp [zeros]

theorem length_zeros (count : Nat) : (zeros count).length = count := List.length_replicate

theorem consume_padding {count : Nat} (hcount : 0 < count) (hremaining : r.remaining = 0)
    (hpadding : r.padding = count) (hsafe : r.rawBytes + count ≤ Js.maxSafeInteger) :
    r.consume env index compare cursor (zeros count) = .ok { r with
      padding := 0, rawBytes := r.rawBytes + count } := by
  have hpositive : r.padding ≠ 0 := by omega
  have hne : zeros count ≠ [] := List.ne_nil_of_length_pos (by rwa [length_zeros])
  have hroom : (zeros count).length ≤
      (Reading.consumer env index compare cursor).room r.toReading := by
    simp [Reading.consumer, Reading.room, hremaining, length_zeros, hpadding, hcount.ne']
  have hput : (Reading.consumer env index compare cursor).put r.toReading (zeros count) =
      .ok (r.toReading.passPadding (zeros count)) := by
    refine (Reading.put_padding env index compare cursor hremaining hpositive _).trans ?_
    rw [any_zeros, if_neg Bool.false_ne_true]
  unfold consume
  rw [length_zeros, if_neg (Nat.not_lt.mpr hsafe), Consumer.consume_eq_put _ hne hroom, hput]
  unfold Reading.passPadding
  rw [length_zeros, hpadding, Nat.sub_self]
  rfl

theorem consume_zeros (hremaining : r.remaining = 0) (hpadding : r.padding = 0)
    (hheader : r.header = []) (hzeros : r.zeroHeaders < 128)
    (hsafe : r.rawBytes + 512 ≤ Js.maxSafeInteger) :
    r.consume env index compare cursor (zeros 512) =
      .ok { r with zeroHeaders := r.zeroHeaders + 1, rawBytes := r.rawBytes + 512 } := by
  rw [consume_header env index compare cursor hremaining hpadding hheader (length_zeros 512) hsafe]
  unfold Reading.readHeader
  rw [if_pos (all_zeros 512), if_neg (by omega)]
  rfl

/-- A chunk that takes the count past the safe integers is refused, so no longer stream
gets through. -/
theorem consume_rawBytes {r next : TarReader} {chunk : Bytes}
    (h : r.consume env index compare cursor chunk = .ok next) :
    next.rawBytes = r.rawBytes + chunk.length ∧ next.rawBytes ≤ Js.maxSafeInteger := by
  have hends : (r.consume env index compare cursor chunk).Ends
      (fun next => next.rawBytes = r.rawBytes + chunk.length ∧ next.rawBytes ≤ Js.maxSafeInteger)
      fun _ => True := by
    unfold consume
    apply Except.Ends.ite
    · exact fun _ => trivial
    · exact fun hraw => Except.ends_bind (fun _ _ => ⟨rfl, Nat.not_lt.mp hraw⟩) fun _ _ => trivial
  exact hends.of_ok h

theorem foldlM_rawBytes {r next : TarReader} (hr : r.rawBytes ≤ Js.maxSafeInteger)
    (h : chunks.foldlM (consume env index compare cursor) r = .ok next) :
    next.rawBytes = r.rawBytes + chunks.flatten.length ∧ next.rawBytes ≤ Js.maxSafeInteger := by
  induction chunks generalizing r with
  | nil =>
      cases h
      exact ⟨rfl, hr⟩
  | cons chunk chunks ih =>
      rw [List.foldlM_cons] at h
      cases hchunk : r.consume env index compare cursor chunk with
      | error refusal =>
          rw [hchunk] at h
          cases h
      | ok mid =>
          rw [hchunk] at h
          obtain ⟨hmid, hsafe⟩ := consume_rawBytes env index compare cursor hchunk
          obtain ⟨hnext, hle⟩ := ih hsafe h
          refine ⟨?_, hle⟩
          rw [hnext, hmid, List.flatten_cons, List.length_append, Nat.add_assoc]

/-- A stream that is longer than the largest safe integer is refused. -/
theorem read_long (proof : ManagedExportProof) (hlong : Js.maxSafeInteger < chunks.flatten.length) :
    ∃ refusal, read env index compare cursor proof chunks = .error refusal := by
  unfold read
  cases hrun : chunks.foldlM (consume env index compare cursor) (create proof cursor) with
  | error refusal => exact ⟨refusal, rfl⟩
  | ok next =>
      obtain ⟨hraw, hle⟩ := foldlM_rawBytes env index compare cursor (Nat.zero_le _) hrun
      have hzero : (create proof cursor).rawBytes = 0 := rfl
      omega

/-! ## Reading the sample -/

def sampleEntry : ManagedExportEntry :=
  { path := "/a", type := .file, size := 2, sha256 := none, linkTarget := none,
    metadata :=
      { type := "file", size := 2, mode := 420, uid := 0, gid := 0, mtime := 0, uname := "",
                  gname := "", linkname := none, pax := [] } }

/-- The entry under way behind the header. -/
def sampleCurrent : Current :=
  { entry := sampleEntry, hash := some [],
    header := packedHeader "a" sampleEntry.metadata, payload := [] }

def sampleSettled : ManagedExportEntry :=
  { sampleEntry with sha256 := some (sampleSha256 [104, 105]) }

/-- The reader behind the archive. -/
def sampleRead (proof : ManagedExportProof) : TarReader :=
  { header := [], remaining := 0, padding := 0, zeroHeaders := 2, extensions := 0,
    extensionBytes := 0, extendedType := none, extended := [], pax := none, longName := none,
    longLink := none, current := none, included := 1,
    emitted := [{ entry := sampleSettled, header := sampleCurrent.header, payload := [104, 105] }],
    proof, rawBytes := 2048 }

/-- What the texts of the archive are read as. -/
structure SampleTexts : Prop where
  length : sampleHeader.length = 512
  used : sampleHeader.all (· == 0) = false
  magic : readMagic sampleHeader = .ok .posix
  flag : typeFlag sampleHeader = '0'
  size : natural (subarray sampleHeader 124 136) = .ok 2
  name : entryName sampleHeader .posix '0' [] none none = .ok "a"
  node : indexedNode sampleIndex '0' "a" = .ok ⟨"/a", .file, 2⟩
  shape : entryShape sampleHeader '0' [] none 2 = .ok (2, "")
  metadata : readMetadata sampleHeader .posix [] .file 2 "" = .ok sampleEntry.metadata
  bytes : "hi".toUTF8.data.toList = [104, 105]
  byteLength : "hi".utf8ByteSize = 2
  safe : 2048 ≤ Js.maxSafeInteger

theorem sampleTexts : SampleTexts where
  length := by decide +kernel
  used := by decide +kernel
  magic := by decide +kernel
  flag := by decide +kernel
  size := by decide +kernel
  name := by decide +kernel
  node := by decide +kernel
  shape := by decide +kernel
  metadata := by decide +kernel
  bytes := by decide +kernel
  byteLength := by decide +kernel
  safe := by decide +kernel

theorem readHeader_sample (texts : SampleTexts) (compare : Bool) (cursor : String) {r : Reading}
    (hzeros : r.zeroHeaders = 0) (hpax : r.pax = none) (hname : r.longName = none)
    (hlink : r.longLink = none) (hextensions : r.extensions = 0) (hbytes : r.extensionBytes = 0)
    (hseen : r.proof.seen samplePlatform cursor "/a" = .ok p) (hmode : p.mode = .full)
    (hget : compare = true → (p.get "/a").map (·.metadata) = some sampleEntry.metadata) :
    r.readHeader samplePlatform sampleIndex compare cursor sampleHeader =
      .ok { r with proof := p, current := some sampleCurrent, remaining := 2, padding := 510 } := by
  have hincluded : exportIncludes p.mode .file = true := by
    rw [hmode]
    rfl
  have hopened :=
    openIncluded_file "a" "" ⟨"/a", .file, 2⟩ hincluded rfl rfl rfl texts.metadata hget
  have hname' :
      entryName sampleHeader .posix '0' (r.pax.getD []) r.longName r.longLink = .ok "a" := by
    rw [hpax, hname, hlink]
    exact texts.name
  have hshape : entryShape sampleHeader '0' (r.pax.getD []) r.longLink 2 = .ok (2, "") := by
    rw [hpax, hlink]
    exact texts.shape
  have hpadding : paddingOf 2 = 510 := rfl
  rw [readHeader_entry samplePlatform sampleIndex compare cursor texts.used hzeros texts.magic
    texts.flag texts.size
    rfl rfl hname' texts.node hseen hshape (by rw [hpax]; exact hopened) (by decide), hpadding]
  rw [hpax, hname, hlink, hextensions, hbytes]
  rfl

theorem sampleArchive_pieces (texts : SampleTexts) :
    sampleArchive = [sampleHeader, [104, 105], zeros 510, zeros 512, zeros 512].flatten := by
  have hfield : sampleField 512 "hi" = [104, 105] ++ zeros 510 := by
    unfold sampleField
    rw [texts.bytes, texts.byteLength]
    rfl
  have hzeros : List.replicate 1024 (0 : UInt8) = zeros 512 ++ zeros 512 :=
    List.replicate_add 512 512 0
  unfold sampleArchive
  rw [hfield, hzeros]
  simp only [List.flatten_cons, List.flatten_nil, List.append_nil, List.append_assoc]

theorem length_sampleArchive (texts : SampleTexts) : sampleArchive.length = 2048 := by
  simp only [sampleArchive_pieces texts, List.flatten_cons, List.flatten_nil,
    List.length_append, List.length_cons, List.length_nil, texts.length, length_zeros]

/-- The archive is read in five pieces: the header, the payload, its padding and the two
blocks of zeros. -/
theorem foldlM_sample (texts : SampleTexts) (compare : Bool) (cursor : String)
    (proof : ManagedExportProof) {p q : ManagedExportProof}
    (hchunks : chunks.flatten = sampleArchive)
    (hseen : (proof.createCursor cursor).seen samplePlatform cursor "/a" = .ok p)
    (hmode : p.mode = .full)
    (hget : compare = true → (p.get "/a").map (·.metadata) = some sampleEntry.metadata)
    (hsettle : Reading.settle samplePlatform compare p sampleSettled = .ok q) :
    chunks.foldlM (consume samplePlatform sampleIndex compare cursor) (create proof cursor) =
      .ok (sampleRead q) := by
  have hheader : (create proof cursor).header.length < 512 := Nat.succ_pos _
  have hraw : (create proof cursor).rawBytes = 0 := rfl
  have hread :=
    readHeader_sample texts compare cursor (r :=
      (create proof cursor).toReading) rfl rfl rfl rfl rfl rfl
    hseen hmode hget
  have hentry : Reading.settle samplePlatform compare p
      { sampleCurrent.entry with
        sha256 :=
          (sampleCurrent.hash.map (· ++ [104, 105])).map samplePlatform.sha256 } = .ok q := hsettle
  rw [foldlM_consume _ _ _ _ hheader
    (by rw [hchunks, hraw, length_sampleArchive texts]; exact texts.safe), hchunks,
    sampleArchive_pieces texts, ← foldlM_consume _ _ _ _ hheader
      (by rw [← sampleArchive_pieces texts, hraw, length_sampleArchive texts]; exact texts.safe)]
  simp only [List.foldlM_cons, List.foldlM_nil]
  rw [consume_header _ _ _ _ rfl rfl rfl texts.length
    (by rw [hraw]; exact Nat.le_trans (by decide) texts.safe), hread]
  simp only [Except.map, bind, Except.bind]
  rw [consume_last _ _ _ _ (c := sampleCurrent) (List.cons_ne_nil _ _) rfl rfl rfl
    (Nat.le_trans (by decide : 0 + 512 + 2 ≤ 2048) texts.safe)]
  dsimp only
  rw [hentry]
  simp only [Except.map]
  rw [consume_padding _ _ _ _ (by decide : 0 < 510) rfl rfl
    (Nat.le_trans (by decide : 0 + 512 + 2 + 510 ≤ 2048) texts.safe)]
  dsimp only
  rw [consume_zeros _ _ _ _ rfl rfl rfl (by decide : 0 < 128)
    (Nat.le_trans (by decide : 0 + 512 + 2 + 510 + 512 ≤ 2048) texts.safe)]
  dsimp only
  rw [consume_zeros _ _ _ _ rfl rfl rfl (by decide : 0 + 1 < 128)
    (Nat.le_trans (by decide : 0 + 512 + 2 + 510 + 512 + 512 ≤ 2048) texts.safe)]
  rfl

/-- The end of the reading, once the proof is flushed. -/
theorem finish_sample (compare : Bool) {p flushed q : ManagedExportProof}
    (hflush : p.flush samplePlatform = .ok flushed)
    (hexpected : (flushed.summary.map (·.includedEntries)).getD
      (ManagedExportProof.total flushed.includedByType) = 1)
    (hcomplete : complete samplePlatform compare flushed = .ok q) :
    (sampleRead p).finish samplePlatform compare = .ok (sampleRead q) := by
  have hends : ¬((sampleRead p).header.length != 0 || (sampleRead p).remaining != 0 ||
      (sampleRead p).padding != 0 ||
      (sampleRead p).zeroHeaders < 2 || (sampleRead p).rawBytes % 512 != 0 ||
      (sampleRead p).extensions != 0 ||
      (sampleRead p).extendedType.isSome) = true := by
    simp [sampleRead]
  have hproof : (sampleRead p).proof = p := rfl
  have hincluded : (sampleRead p).included = 1 := rfl
  unfold finish
  rw [if_neg hends, hproof, hflush, hincluded]
  simp only [bind, Except.bind]
  rw [hexpected, if_neg (by decide), hcomplete]
  rfl

theorem seen_fresh (env : Platform) (cursor path : String) (hcursors : p.cursors = [])
    (hseen : p.db.seen = []) :
    (p.createCursor cursor).seen env cursor path = .ok { p with
      cursors := [(cursor, [path])] } := by
  simp [ManagedExportProof.seen, ManagedExportProof.createCursor,
    ManagedExportProof.cursorPaths, Js.mapSet, hcursors, hseen]

/-- How much waits in memory matters to a flush only when it fails. -/
theorem flush_pendingBytes (env : Platform) {p q : ManagedExportProof} (n : Nat)
    (h : p.flush env = .ok q) :
    { p with pendingBytes := n }.flush env = .ok q := by
  have hrows : { p with pendingBytes := n }.seenRows = p.seenRows := rfl
  unfold ManagedExportProof.flush at h ⊢
  rw [hrows]
  dsimp only
  split at h
  · exact h
  all_goals cases h

/-- The sample's proof when the entry is flushed. -/
def sampleFlushed (cursor : String) : ManagedExportProof :=
  { sampleProof with
    db := { sampleProof.db with entries := [sampleSettled], seen := [(cursor, "/a")] }
    cursors := [(cursor, [])] }

/-- An entry that waits is flushed with the next flush; one that is flushed at once is
flushed already. -/
theorem append_flush (env : Platform) {p q : ManagedExportProof} {entry : ManagedExportEntry}
    (hlookup : p.lookup entry.path = none)
    (hflush : { p with pending := p.pending ++ [entry] }.flush env = .ok q)
    (hagain : q.flush env = .ok q) :
    ∃ next, p.append env entry = .ok next ∧ next.flush env = .ok q := by
  have hadded :=
    flush_pendingBytes env (p.pendingBytes + Js.byteLength (Js.stringify entry.fields)) hflush
  unfold ManagedExportProof.append
  rw [hlookup]
  dsimp only
  split
  · exact ⟨q, hadded, hagain⟩
  · exact ⟨_, rfl, hadded⟩

theorem append_sample (cursor : String) :
    ∃ next, { sampleProof with cursors := [(cursor, ["/a"])] }.append samplePlatform sampleSettled =
      .ok next ∧
      next.flush samplePlatform = .ok (sampleFlushed cursor) :=
  append_flush samplePlatform rfl rfl rfl

/-- Two ways of cutting one stream give the same result: the same refusal, or the same
entries with the same headers, payloads and digests. Beyond the largest safe integer the
count of raw bytes refuses the stream, at a point that depends on the cut. -/
theorem read_chunking (proof : ManagedExportProof) (chunks chunks' : List Bytes)
    (hsame : chunks.flatten = chunks'.flatten) :
    (chunks.flatten.length ≤ Js.maxSafeInteger →
      read env index compare cursor proof chunks = read env index compare cursor proof chunks') ∧
    (Js.maxSafeInteger < chunks.flatten.length →
      (∃ refusal, read env index compare cursor proof chunks = .error refusal) ∧
        ∃ refusal, read env index compare cursor proof chunks' = .error refusal) := by
  constructor
  · intro hsafe
    have hempty : (create proof cursor).header.length < 512 := Nat.succ_pos _
    have hzero : (create proof cursor).rawBytes = 0 := rfl
    unfold read
    rw [foldlM_consume env index compare cursor hempty (by omega),
      foldlM_consume env index compare cursor hempty (by rw [← hsame]; omega), hsame]
  · intro hlong
    exact ⟨read_long env index compare cursor proof hlong,
      read_long env index compare cursor proof (hsame ▸ hlong)⟩

theorem read_chunking_of_sample :
    read samplePlatform sampleIndex false "c" sampleProof
        [sampleArchive.take 700, [], sampleArchive.drop 700] =
      read samplePlatform sampleIndex false "c" sampleProof [sampleArchive] ∧
    ((read samplePlatform sampleIndex false "c" sampleProof [sampleArchive]).toOption.map
      fun r => r.emitted.map fun e => (e.header.name, e.payload)) = some [("a", [104, 105])] := by
  have hsafe : sampleArchive.length ≤ Js.maxSafeInteger := by
    rw [length_sampleArchive sampleTexts]
    exact sampleTexts.safe
  have hflat : [sampleArchive.take 700, [], sampleArchive.drop 700].flatten = sampleArchive := by
    simp only [List.flatten_cons, List.flatten_nil, List.append_nil, List.nil_append,
      List.take_append_drop]
  have hsame : [sampleArchive.take 700, [], sampleArchive.drop 700].flatten =
      [sampleArchive].flatten := by
    rw [hflat, List.flatten_singleton]
  refine ⟨(read_chunking samplePlatform sampleIndex false "c" sampleProof _ _ hsame).1 ?_, ?_⟩
  · rw [hflat]
    exact hsafe
  · obtain ⟨q, happend, hflush⟩ := append_sample "c"
    have hseen := seen_fresh samplePlatform "c" "/a" (p := sampleProof) (by rfl) (by rfl)
    have hsettle : Reading.settle samplePlatform false
        { sampleProof with cursors := [("c", ["/a"])] } sampleSettled =
        .ok q := by
      unfold Reading.settle
      rw [if_neg Bool.false_ne_true]
      exact happend
    have hfold :=
      foldlM_sample sampleTexts false "c" sampleProof
        (List.flatten_singleton (l := sampleArchive)) hseen rfl
      (fun h => absurd h Bool.false_ne_true) hsettle
    have hcomplete : complete samplePlatform false (sampleFlushed "c") =
        .ok (sampleFlushed "c") := by decide +kernel
    unfold read
    rw [hfold]
    simp only [bind, Except.bind]
    rw [finish_sample false hflush (by decide +kernel) hcomplete]
    rfl

/-! ## A cut that shows

A stream of zeros is refused by its 129th block, unless a chunk that ends past the safe
integers comes first. -/

/-- The reader after `blocks` blocks of zeros. -/
def idle (proof : ManagedExportProof) (blocks : Nat) : TarReader :=
  { create proof cursor with zeroHeaders := blocks, rawBytes := blocks * 512 }

theorem consume_block (proof : ManagedExportProof) {blocks : Nat} (hlen : block.length = 512)
    (hzero : block.all (· == 0) = true) (hblocks : blocks ≤ 128) :
    (idle cursor proof blocks).consume env index compare cursor block =
      if blocks = 128 then (proof.createCursor cursor).refuse .tarMetadataLimit
      else .ok (idle cursor proof (blocks + 1)) := by
  have hne : block ≠ [] := List.ne_nil_of_length_pos (by rw [hlen]; exact Nat.succ_pos _)
  have hsafe : ¬(idle cursor proof blocks).rawBytes + block.length > Js.maxSafeInteger := by
    rw [hlen]
    simp only [idle, Js.maxSafeInteger]
    omega
  have hput : (idle cursor proof blocks).toReading.put env index compare cursor block =
      if blocks = 128 then (proof.createCursor cursor).refuse .tarMetadataLimit
      else .ok (idle cursor proof (blocks + 1)).toReading := by
    have hlimit : (blocks + 1 > 128) = (blocks = 128) := by
      apply propext
      omega
    have hfull : ((idle cursor proof blocks).header ++ block).length = 512 := hlen
    rw [Reading.put_header env index compare cursor rfl rfl, if_pos hfull]
    simp only [Reading.readHeader, idle, create, List.nil_append, hzero, hlimit, if_true]
  unfold consume
  rw [if_neg hsafe, Consumer.consume_eq_put _ hne (Nat.le_of_eq hlen)]
  show (idle cursor proof blocks).toReading.put env index compare cursor block >>= _ = _
  rw [hput]
  by_cases hlast : blocks = 128
  · rw [if_pos hlast, if_pos hlast]
    rfl
  · rw [if_neg hlast, if_neg hlast, hlen]
    simp only [idle, Nat.succ_mul]
    rfl

theorem foldlM_blocks (proof : ManagedExportProof) {blocks : Nat} (hlen : block.length = 512)
    (hzero : block.all (· == 0) = true) (hblocks : blocks ≤ 128) :
    (List.replicate blocks block).foldlM (consume env index compare cursor) (create proof cursor) =
      .ok (idle cursor proof blocks) := by
  induction blocks with
  | zero => rfl
  | succ blocks ih =>
      have hnot : ¬blocks = 128 := by omega
      rw [List.replicate_succ', List.foldlM_append, ih (by omega)]
      show (idle cursor proof blocks).consume env index compare cursor block >>= _ = _
      rw [consume_block env index compare cursor proof hlen hzero (by omega), if_neg hnot]
      rfl

theorem read_blocks (proof : ManagedExportProof) (hlen : block.length = 512)
    (hzero : block.all (· == 0) = true) (rest : List Bytes) :
    read env index compare cursor proof (List.replicate 128 block ++ block :: rest) =
      .error ⟨.refused .tarMetadataLimit, proof.createCursor cursor⟩ := by
  unfold read
  rw [List.foldlM_append, foldlM_blocks env index compare cursor proof hlen hzero (Nat.le_refl _)]
  show ((idle cursor proof 128).consume env index compare cursor block >>= _) >>= _ = _
  rw [consume_block env index compare cursor proof hlen hzero (Nat.le_refl _), if_pos rfl]
  rfl

/-- The count refuses a chunk before it is read. -/
theorem read_past_safe (proof : ManagedExportProof) {chunk : Bytes}
    (hlen : chunk.length = Js.maxSafeInteger) (rest : List Bytes) :
    read env index compare cursor proof ([0] :: chunk :: rest) =
      .error ⟨.refused .tarInvalid, proof.createCursor cursor⟩ := by
  have hfirst : (create proof cursor).consume env index compare cursor [0] =
      .ok { create proof cursor with header := [0], rawBytes := 1 } := rfl
  have hsecond : consume env index compare cursor
      { create proof cursor with header := [0], rawBytes := 1 } chunk =
        .error ⟨.refused .tarInvalid, proof.createCursor cursor⟩ := by
    have hpast : 1 + chunk.length > Js.maxSafeInteger := by omega
    unfold consume
    rw [if_pos hpast]
    rfl
  unfold read
  rw [List.foldlM_cons, hfirst]
  show (consume env index compare cursor _ chunk >>= _) >>= _ = _
  rw [hsecond]
  rfl

end

theorem flatten_zeros (counts : List Nat) : (counts.map zeros).flatten = zeros counts.sum := by
  induction counts with
  | nil => rfl
  | cons count counts ih => simp [ih, zeros, List.replicate_append_replicate]

/-- What a caller sees of a reader's end. -/
def verdict (x : Except Refusal TarReader) : Except Failure (List Emitted) :=
  match x with
  | .ok reader => .ok reader.emitted
  | .error refusal => .error refusal.failure

/-- `2 ^ 53` zeros, cut behind the first byte and cut into blocks. -/
theorem cut_decides_failure :
    [zeros 1, zeros Js.maxSafeInteger].flatten =
      (List.replicate 128 (zeros 512) ++ [zeros 512, zeros (2 ^ 53 - 129 * 512)]).flatten ∧
    verdict (read samplePlatform sampleIndex false "c" sampleProof [zeros 1,
      zeros Js.maxSafeInteger]) =
      .error (.refused .tarInvalid) ∧
    verdict (read samplePlatform sampleIndex false "c" sampleProof
        (List.replicate 128 (zeros 512) ++ [zeros 512, zeros (2 ^ 53 - 129 * 512)])) =
      .error (.refused .tarMetadataLimit) := by
  have hlen : (zeros 512).length = 512 := length_zeros 512
  have hzero : (zeros 512).all (· == 0) = true := all_zeros 512
  refine ⟨?_, ?_, ?_⟩
  · have hsum : [1, Js.maxSafeInteger].sum =
        (List.replicate 128 512 ++ [512, 2 ^ 53 - 129 * 512]).sum := by
      simp [Js.maxSafeInteger]
    have hblocks : List.replicate 128 (zeros 512) ++ [zeros 512, zeros (2 ^ 53 - 129 * 512)] =
        (List.replicate 128 512 ++ [512, 2 ^ 53 - 129 * 512]).map zeros := by
      simp only [List.map_append, List.map_replicate, List.map_cons, List.map_nil]
    rw [hblocks, flatten_zeros, ← hsum]
    exact flatten_zeros [1, Js.maxSafeInteger]
  · have hlong : (zeros Js.maxSafeInteger).length = Js.maxSafeInteger := List.length_replicate
    have hread := read_past_safe samplePlatform sampleIndex false "c" sampleProof hlong []
    show verdict (read _ _ _ _ _ ([0] :: zeros Js.maxSafeInteger :: [])) = _
    rw [hread]
    rfl
  · rw [read_blocks samplePlatform sampleIndex false "c" sampleProof hlen hzero]
    rfl

end TarReader

end Pluton.Tar
