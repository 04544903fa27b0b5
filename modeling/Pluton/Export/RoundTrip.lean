-- SUMMARY: Export encryption: round trip of any range and chunking, and authenticity.
import Mathlib.Tactic.Ring
import Pluton.Export.Cipher

/-!
# Round trip and authenticity of exports

The ciphertext is the concatenation of the sealed frames. Both the encryptor and
the decryptor are lawful consumers, so each is followed frame by frame: a frame
fills the room exactly, and what is left over at the end is shorter than a frame.
-/
namespace Pluton.Export

open Chunked

/-! ## Slices -/

section Subarray

variable {α : Type} {l : List α} {a b x y : Nat}

theorem subarray_eq : subarray a b l = (l.drop a).take (b - a) :=
  List.drop_take

theorem length_subarray : (subarray a b l).length = min b l.length - a := by
  simp [subarray]

theorem subarray_append (hxy : a ≤ x) (hyb : x ≤ b) :
    subarray a x l ++ subarray x b l = subarray a b l := by
  have hdrop : l.drop x = (l.drop a).drop (x - a) := by
    rw [List.drop_drop, Nat.add_sub_cancel' hxy]
  have hsum : b - a = (x - a) + (b - x) := by omega
  rw [subarray_eq, subarray_eq, subarray_eq, hdrop, hsum, List.take_add]

theorem subarray_subarray :
    subarray a b (subarray x y l) = subarray (x + a) (min y (x + b)) l := by
  simp only [subarray_eq, List.drop_take, List.take_take, List.drop_drop]
  congr 1
  omega

theorem subarray_of_append {pre mid post : List α} (hb : b = pre.length + mid.length) :
    subarray pre.length b (pre ++ mid ++ post) = mid := by
  rw [subarray_eq, hb, Nat.add_sub_cancel_left, List.append_assoc, List.drop_left, List.take_left]

end Subarray

/-! ## Frames -/

/-- `Math.ceil` counts the frames that begin before the end. -/
theorem lt_ceilDiv {i n m : Nat} (hm : 0 < m) : i < ceilDiv n m ↔ i * m < n := by
  unfold ceilDiv
  rw [Nat.lt_div_iff_mul_lt hm]
  constructor <;> intro h <;> omega

namespace ExportCipher

variable (prim : Primitives) (c : ExportCipher) (plain : Bytes)

/-- The plaintext of a frame. -/
def plainFrame (index : Nat) : Bytes :=
  subarray (index * c.manifest.chunkBytes) ((index + 1) * c.manifest.chunkBytes) plain

/-- A frame of the ciphertext. -/
def sealedFrame (index : Nat) : Bytes :=
  prim.gcmSeal (c.frameKey prim index) (c.frameIv index) (c.frameAad prim index)
    (c.plainFrame plain index)

/-- `len` frames of the ciphertext from `first` on. -/
def frames (first len : Nat) : Bytes :=
  (List.range' first len).flatMap (c.sealedFrame prim plain)

/-- A key, a nonce and additional data always seal to a text and a tag, and what was
sealed opens again. -/
structure Aead (prim : Primitives) : Prop where
  length_seal : ∀ key iv aad x, (prim.gcmSeal key iv aad x).length = x.length + tagBytes
  opens : ∀ key iv aad x, prim.gcmOpen key iv aad (prim.gcmSeal key iv aad x) = some x

/-- Under the keys of an export, what the export's encryption sealed opens, and
nothing else does. -/
structure Ideal : Prop where
  length_seal : ∀ key iv aad x, (prim.gcmSeal key iv aad x).length = x.length + tagBytes
  opens : ∀ index, index < c.count →
    prim.gcmOpen (c.frameKey prim index) (c.frameIv index) (c.frameAad prim index)
      (c.sealedFrame prim plain index) = some (c.plainFrame plain index)
  only : ∀ index iv aad y x, prim.gcmOpen (c.frameKey prim index) iv aad y = some x →
    ∃ i, i < c.count ∧ c.frameKey prim i = c.frameKey prim index ∧ iv = c.frameIv i ∧
      aad = c.frameAad prim i ∧ x = c.plainFrame plain i ∧
      y = prim.gcmSeal (c.frameKey prim index) iv aad x

variable {prim c plain}

theorem chunkBytes_pos (c : ExportCipher) : 0 < c.manifest.chunkBytes := by
  rw [c.manifest.chunkBytes_eq]
  decide

theorem lt_count {index : Nat} :
    index < c.count ↔ index * c.manifest.chunkBytes < c.manifest.plaintextBytes :=
  lt_ceilDiv c.chunkBytes_pos

theorem count_eq {len : Nat} (hle : c.manifest.plaintextBytes ≤ len * c.manifest.chunkBytes)
    (hlt : ∀ index, index < len → index * c.manifest.chunkBytes < c.manifest.plaintextBytes) :
    c.count = len := by
  apply Nat.le_antisymm
  · by_contra hmore
    have hbegin := lt_count.mp (Nat.lt_of_not_le hmore)
    omega
  · by_contra hless
    exact Nat.lt_irrefl _ (lt_count.mpr (hlt c.count (Nat.lt_of_not_le hless)))

/-- The largest plaintext has far fewer frames than a nonce can number. -/
theorem lt_of_lt_count {index : Nat} (h : index < c.count) : index < 2 ^ 32 := by
  have hlt := lt_count.mp h
  have hle := c.manifest.plaintextBytes_le
  rw [c.manifest.chunkBytes_eq] at hlt
  simp only [exportChunkBytes, maxObjectBytes] at hlt hle
  omega

theorem frame_eq {index : Nat} (h : index < c.count) :
    c.frame prim index =
      some ⟨c.frameKey prim index, c.frameIv index, c.frameBytes index, c.frameAad prim index⟩ :=
  if_pos ⟨h, lt_of_lt_count h⟩

theorem frames_succ (prim : Primitives) (c : ExportCipher) (plain : Bytes) (first len : Nat) :
    c.frames prim plain first (len + 1) =
      c.sealedFrame prim plain first ++ c.frames prim plain (first + 1) len := by
  simp [frames, List.range'_succ]

theorem frames_concat (prim : Primitives) (c : ExportCipher) (plain : Bytes) (len : Nat) :
    c.frames prim plain 0 (len + 1) =
      c.frames prim plain 0 len ++ c.sealedFrame prim plain len := by
  simp [frames, List.range'_concat]

theorem frames_append (prim : Primitives) (c : ExportCipher) (plain : Bytes)
    (first len len' : Nat) :
    c.frames prim plain first (len + len') =
      c.frames prim plain first len ++ c.frames prim plain (first + len) len' := by
  have hrange : List.range' first (len + len') =
      List.range' first len ++ List.range' (first + len) len' := by
    simp
  rw [frames, hrange, List.flatMap_append]
  rfl

section Plain

variable (hlen : plain.length = c.manifest.plaintextBytes)

include hlen

theorem length_plainFrame (index : Nat) :
    (c.plainFrame plain index).length = c.frameBytes index := by
  rw [plainFrame, length_subarray, frameBytes, hlen, Nat.succ_mul]
  omega

theorem sealFrame_plainFrame {index : Nat} (h : index < c.count) :
    c.sealFrame prim index (c.plainFrame plain index) = some (c.sealedFrame prim plain index) := by
  simp [sealFrame, frame_eq h, length_plainFrame hlen, sealedFrame]

variable (hseal : ∀ key iv aad x, (prim.gcmSeal key iv aad x).length = x.length + tagBytes)

include hseal

theorem length_sealedFrame (index : Nat) :
    (c.sealedFrame prim plain index).length = c.frameBytes index + tagBytes := by
  rw [sealedFrame, hseal, length_plainFrame hlen]

/-- The length of the first `len` frames. -/
theorem length_frames {len : Nat} :
    (c.frames prim plain 0 len).length =
      min (len * c.manifest.chunkBytes) c.manifest.plaintextBytes + len * tagBytes := by
  induction len with
  | zero => simp [frames]
  | succ len ih =>
      rw [frames_concat, List.length_append, ih, length_sealedFrame hlen hseal, frameBytes,
        Nat.succ_mul, Nat.succ_mul]
      omega

end Plain

/-! ## The encryptor -/

theorem encryptor_lawful (prim : Primitives) (c : ExportCipher) :
    Lawful (c.encryptor prim) fun s => s.buffer.length < c.manifest.chunkBytes where
  room_pos := fun hs => Nat.sub_pos_of_lt hs
  keep := by
    intro s s' b hs hput
    simp only [encryptor] at hput
    split at hput
    · split at hput
      · cases hput
        exact c.chunkBytes_pos
      · cases hput
    · rename_i hne
      cases hput
      simp only [List.length_append, List.length_singleton] at hne ⊢
      omega
  room_step := by
    intro s s' b hs hroom hput
    simp only [encryptor] at hput hroom ⊢
    split at hput
    · rename_i heq
      simp only [List.length_append, List.length_singleton] at heq
      omega
    · cases hput
      simp only [List.length_append, List.length_singleton]
      omega
  split := by
    intro s b b' bs hs hroom
    simp only [encryptor, List.length_cons] at hroom ⊢
    have hne : (s.buffer ++ [b]).length ≠ c.manifest.chunkBytes := by
      simp only [List.length_append, List.length_singleton]
      omega
    simp only [if_neg hne, bind, Except.bind, List.append_assoc, List.singleton_append]

/-- A piece that starts a frame and ends in it at the latest. -/
theorem encryptor_bytes {index : Nat} {output piece : Bytes} (hne : piece ≠ [])
    (hle : piece.length ≤ c.manifest.chunkBytes) :
    (c.encryptor prim).bytes ⟨index, [], output⟩ piece =
      (c.encryptor prim).put ⟨index, [], output⟩ piece :=
  ((encryptor_lawful prim c).put_eq_bytes (s := ⟨index, [], output⟩) c.chunkBytes_pos hne hle).symm

/-- The frames that are full, sealed one after the other. -/
theorem encryptor_full (hlen : plain.length = c.manifest.plaintextBytes) {len : Nat}
    (hle : len * c.manifest.chunkBytes ≤ c.manifest.plaintextBytes) :
    (c.encryptor prim).bytes ⟨0, [], []⟩ (plain.take (len * c.manifest.chunkBytes)) =
      .ok ⟨len, [], c.frames prim plain 0 len⟩ := by
  induction len with
  | zero => simp [frames]
  | succ len ih =>
      rw [Nat.succ_mul] at hle
      have hcount : len < c.count := lt_count.mpr (by have := c.chunkBytes_pos; omega)
      have hbytes : c.frameBytes len = c.manifest.chunkBytes := by
        rw [frameBytes]
        omega
      have hframe := length_plainFrame hlen len
      have hne : c.plainFrame plain len ≠ [] := by
        intro hnil
        rw [hnil, hbytes] at hframe
        exact absurd hframe.symm (Nat.ne_of_gt c.chunkBytes_pos)
      have htake : plain.take ((len + 1) * c.manifest.chunkBytes) =
          plain.take (len * c.manifest.chunkBytes) ++ c.plainFrame plain len := by
        rw [plainFrame, subarray_eq, ← List.take_add]
        congr 1
        rw [Nat.succ_mul]
        omega
      rw [htake, Consumer.bytes_append, ih (by omega)]
      -- the next frame fills the buffer exactly
      change (c.encryptor prim).bytes ⟨len, [], _⟩ (c.plainFrame plain len) = _
      rw [encryptor_bytes hne (Nat.le_of_eq (hframe.trans hbytes))]
      simp [encryptor, hframe, hbytes, sealFrame_plainFrame hlen hcount, frames_concat]

/-- The check on the number of bytes read never stops a plaintext of the right length. -/
theorem encryptChunks_eq (prim : Primitives) (c : ExportCipher) (input : List Bytes)
    {s : Encrypting} {read : Bytes} (hs : s.buffer.length < c.manifest.chunkBytes)
    (hle : (read ++ input.flatten).length ≤ c.manifest.plaintextBytes) :
    input.foldlM (c.encryptChunk prim) (s, read) =
      ((c.encryptor prim).bytes s input.flatten).map fun s' => (s', read ++ input.flatten) := by
  induction input generalizing s read with
  | nil => simp [Except.map, pure, Except.pure]
  | cons chunk input ih =>
      simp only [List.flatten_cons, List.length_append] at hle
      have hread : ¬ c.manifest.plaintextBytes < (read ++ chunk).length := by
        simp only [List.length_append]
        omega
      rw [List.foldlM_cons, List.flatten_cons, Consumer.bytes_append]
      simp only [encryptChunk, if_neg hread, (encryptor_lawful prim c).consume_eq_bytes hs]
      cases hnext : (c.encryptor prim).bytes s chunk with
      | error e => rfl
      | ok next =>
          have hkeep := (encryptor_lawful prim c).keep_bytes hs hnext
          have hrest := @ih next (read ++ chunk) hkeep (by simp only [List.length_append]; omega)
          simpa [bind, Except.bind, pure, Except.pure] using hrest

/-- The encryptor yields the sealed frames, however its input is cut. -/
theorem encrypt_eq (hlen : plain.length = c.manifest.plaintextBytes)
    (hsha : prim.sha256 plain = c.manifest.plaintextSha256) {input : List Bytes}
    (hinput : input.flatten = plain) :
    c.encrypt prim input = ⟨c.frames prim plain 0 c.count, true⟩ := by
  have hpos := c.chunkBytes_pos
  -- the whole frames, and what is left behind them
  let full := c.manifest.plaintextBytes / c.manifest.chunkBytes
  have hfull : full * c.manifest.chunkBytes ≤ c.manifest.plaintextBytes :=
    Nat.div_mul_le_self _ _
  have hmod : full * c.manifest.chunkBytes + c.manifest.plaintextBytes % c.manifest.chunkBytes =
      c.manifest.plaintextBytes := Nat.div_add_mod' _ _
  have hlt := Nat.mod_lt c.manifest.plaintextBytes hpos
  let rest := plain.drop (full * c.manifest.chunkBytes)
  have hrest : rest.length = c.manifest.plaintextBytes % c.manifest.chunkBytes := by
    simp only [rest, List.length_drop, hlen]
    omega
  have hsplit : plain = plain.take (full * c.manifest.chunkBytes) ++ rest :=
    (List.take_append_drop _ _).symm
  have hbytes : (c.encryptor prim).bytes ⟨0, [], []⟩ plain =
      .ok ⟨full, rest, c.frames prim plain 0 full⟩ := by
    rw [hsplit, Consumer.bytes_append, ← hsplit, encryptor_full hlen hfull]
    change (c.encryptor prim).bytes ⟨full, [], _⟩ rest = _
    by_cases hnil : rest = []
    · rw [hnil]
      rfl
    · rw [encryptor_bytes hnil (by omega)]
      have hne : rest.length ≠ c.manifest.chunkBytes := by omega
      simp [encryptor, hne]
  have hchunks := encryptChunks_eq prim c input (s := ⟨0, [], []⟩) hpos
    (show ([] ++ input.flatten).length ≤ _ by simp [hinput, hlen])
  rw [hinput, hbytes] at hchunks
  simp only [encrypt, hchunks, Except.map, List.nil_append, hlen, hsha, ne_eq, not_true_eq_false,
    or_self, if_false]
  -- at the end the rest is sealed as a frame of its own, unless it is empty
  by_cases hnil : rest = []
  · have hcount : c.count = full := by
      rw [hnil, List.length_nil] at hrest
      apply count_eq
      · omega
      · intro index hindex
        have hmul := Nat.mul_le_mul_right c.manifest.chunkBytes (Nat.succ_le_of_lt hindex)
        rw [Nat.succ_mul] at hmul
        omega
    simp [hnil, hcount]
  · have hrestPos : 0 < rest.length := List.length_pos_of_ne_nil hnil
    have hcount : c.count = full + 1 := by
      apply count_eq
      · rw [Nat.succ_mul]
        omega
      · intro index hindex
        have hmul := Nat.mul_le_mul_right c.manifest.chunkBytes (Nat.le_of_lt_succ hindex)
        omega
    have hframe : rest = c.plainFrame plain full := by
      rw [plainFrame, subarray_eq, Nat.succ_mul, Nat.add_sub_cancel_left]
      exact (List.take_of_length_le (by omega)).symm
    have hseal : c.sealFrame prim full rest = some (c.sealedFrame prim plain full) := by
      rw [hframe]
      exact sealFrame_plainFrame hlen (hcount ▸ Nat.lt_succ_self full)
    simp [hnil, hseal, hcount, frames_concat]

/-! ## The decryptor -/

theorem decryptor_lawful (prim : Primitives) (c : ExportCipher) (start end_ last : Nat) :
    Lawful (c.decryptor prim start end_ last) fun s =>
      s.frame.length < c.frameBytes s.index + tagBytes where
  room_pos := fun hs => Nat.sub_pos_of_lt hs
  keep := by
    intro s s' b hs hput
    simp only [decryptor] at hput
    split at hput
    · cases hput
    · split at hput
      · split at hput
        · cases hput
          simp [tagBytes]
        · cases hput
      · rename_i hne
        cases hput
        simp only [List.length_append, List.length_singleton] at hne ⊢
        omega
  room_step := by
    intro s s' b hs hroom hput
    simp only [decryptor] at hput hroom ⊢
    split at hput
    · cases hput
    · split at hput
      · rename_i heq
        simp only [List.length_append, List.length_singleton] at heq
        omega
      · cases hput
        simp only [List.length_append, List.length_singleton]
        omega
  split := by
    intro s b b' bs hs hroom
    simp only [decryptor, List.length_cons] at hroom ⊢
    have hne : (s.frame ++ [b]).length ≠ c.frameBytes s.index + tagBytes := by
      simp only [List.length_append, List.length_singleton]
      omega
    by_cases hlast : last < s.index
    · simp only [if_pos hlast, bind, Except.bind]
    · simp only [if_neg hlast, if_neg hne, bind, Except.bind, List.append_assoc,
        List.singleton_append]

section Decrypt

variable {start end_ last index : Nat} {output : Bytes}

/-- A piece that starts a frame and ends in it at the latest. -/
theorem decryptor_bytes {piece : Bytes} (hne : piece ≠ [])
    (hle : piece.length ≤ c.frameBytes index + tagBytes) :
    (c.decryptor prim start end_ last).bytes ⟨index, [], output⟩ piece =
      (c.decryptor prim start end_ last).put ⟨index, [], output⟩ piece :=
  ((decryptor_lawful prim c start end_ last).put_eq_bytes (s := ⟨index, [], output⟩)
    (by simp [tagBytes]) hne hle).symm

/-- What a frame contributes to the range. -/
def frameSlice (c : ExportCipher) (start end_ index : Nat) (plain : Bytes) : Bytes :=
  subarray (start - index * c.manifest.chunkBytes)
    (min plain.length (end_ + 1 - index * c.manifest.chunkBytes)) plain

theorem decryptor_opened (hlast : index ≤ last) {x p : Bytes}
    (hlen : x.length = c.frameBytes index + tagBytes) (hopen : c.unsealFrame prim index x = some p)
    (rest : Bytes) :
    (c.decryptor prim start end_ last).bytes ⟨index, [], output⟩ (x ++ rest) =
      (c.decryptor prim start end_ last).bytes
        ⟨index + 1, [], output ++ c.frameSlice start end_ index p⟩ rest := by
  have hne : x ≠ [] := by
    intro hnil
    simp [hnil, tagBytes] at hlen
  have hnot : ¬ last < index := Nat.not_lt.mpr hlast
  rw [Consumer.bytes_append, decryptor_bytes hne (Nat.le_of_eq hlen)]
  simp [decryptor, hnot, hlen, hopen, frameSlice, bind, Except.bind]

theorem decryptor_refused (hlast : index ≤ last) {x : Bytes}
    (hlen : x.length = c.frameBytes index + tagBytes) (hopen : c.unsealFrame prim index x = none)
    (rest : Bytes) :
    (c.decryptor prim start end_ last).bytes ⟨index, [], output⟩ (x ++ rest) = .error output := by
  have hne : x ≠ [] := by
    intro hnil
    simp [hnil, tagBytes] at hlen
  have hnot : ¬ last < index := Nat.not_lt.mpr hlast
  rw [Consumer.bytes_append, decryptor_bytes hne (Nat.le_of_eq hlen)]
  simp [decryptor, hnot, hlen, hopen, bind, Except.bind]

theorem decryptor_short (hlast : index ≤ last) {x : Bytes}
    (hlen : x.length < c.frameBytes index + tagBytes) :
    (c.decryptor prim start end_ last).bytes ⟨index, [], output⟩ x = .ok ⟨index, x, output⟩ := by
  cases x with
  | nil => rfl
  | cons b bs =>
      have hnot : ¬ last < index := Nat.not_lt.mpr hlast
      have hne : (b :: bs).length ≠ c.frameBytes index + tagBytes := Nat.ne_of_lt hlen
      rw [decryptor_bytes (by simp) (Nat.le_of_lt hlen)]
      simp only [decryptor, if_neg hnot, List.nil_append, if_neg hne]

theorem decryptor_extra (hlast : last < index) (b : UInt8) (bs : Bytes) :
    (c.decryptor prim start end_ last).bytes ⟨index, [], output⟩ (b :: bs) = .error output := by
  rw [Consumer.bytes_cons]
  simp [decryptor, hlast, bind, Except.bind]

/-! ## The range -/

/-- The part of the range from frame `index` on. -/
def rangeFrom (c : ExportCipher) (plain : Bytes) (start end_ index : Nat) : Bytes :=
  subarray (max start (index * c.manifest.chunkBytes)) (end_ + 1) plain

variable (hlen : plain.length = c.manifest.plaintextBytes)
  (hend : end_ < c.manifest.plaintextBytes)

include hlen hend

theorem frameSlice_plainFrame (hindex : index * c.manifest.chunkBytes ≤ end_) :
    c.frameSlice start end_ index (c.plainFrame plain index) =
      subarray (max start (index * c.manifest.chunkBytes))
        (min (end_ + 1) ((index + 1) * c.manifest.chunkBytes)) plain := by
  rw [frameSlice, length_plainFrame hlen, plainFrame, subarray_subarray, frameBytes, Nat.succ_mul]
  congr 1 <;> omega

/-- The range is what the first frame contributes and what the others do. -/
theorem rangeFrom_succ (hle : start ≤ end_) (hindex : index * c.manifest.chunkBytes ≤ end_)
    (hstart : start < (index + 1) * c.manifest.chunkBytes) :
    c.rangeFrom plain start end_ index =
      c.frameSlice start end_ index (c.plainFrame plain index) ++
        c.rangeFrom plain start end_ (index + 1) := by
  have hrest : c.rangeFrom plain start end_ (index + 1) =
      subarray (min (end_ + 1) ((index + 1) * c.manifest.chunkBytes)) (end_ + 1) plain := by
    rw [rangeFrom, Nat.max_eq_right (Nat.le_of_lt hstart)]
    rcases Nat.le_total ((index + 1) * c.manifest.chunkBytes) (end_ + 1) with hend | hend
    · rw [Nat.min_eq_right hend]
    · -- the frame reaches past the range, and nothing follows
      rw [Nat.min_eq_left hend, subarray_eq, subarray_eq, Nat.sub_self,
        Nat.sub_eq_zero_of_le hend]
      simp
  rw [frameSlice_plainFrame hlen hend hindex, hrest, rangeFrom, subarray_append]
  · rw [Nat.succ_mul] at hstart ⊢
    have := c.chunkBytes_pos
    omega
  · exact Nat.min_le_left _ _

omit hlen hend

/-- What `range` accepts and answers. -/
theorem range_eq_some {selection : Selection} :
    c.range start end_ = some selection ↔
      start ≤ end_ ∧ end_ < c.manifest.plaintextBytes ∧
      selection =
        { first := start / c.manifest.chunkBytes
          last := end_ / c.manifest.chunkBytes
          start := start / c.manifest.chunkBytes * (c.manifest.chunkBytes + tagBytes)
          end_ := min c.manifest.ciphertextBytes
            ((end_ / c.manifest.chunkBytes + 1) * (c.manifest.chunkBytes + tagBytes)) - 1 } := by
  simp only [range]
  split
  · rename_i hrefused
    constructor
    · intro h
      cases h
    · rintro ⟨hle, hlt, -⟩
      omega
  · rename_i hvalid
    simp only [not_or, Nat.not_lt, Nat.not_le] at hvalid
    simp only [Option.some.injEq]
    constructor
    · intro h
      exact ⟨hvalid.1, hvalid.2, h.symm⟩
    · rintro ⟨-, -, h⟩
      exact h.symm

theorem ciphertextBytes_eq_count (c : ExportCipher) :
    c.manifest.ciphertextBytes = c.manifest.plaintextBytes + c.count * tagBytes := by
  rw [c.manifest.ciphertextBytes_eq, encryptedBytes, count, c.manifest.chunkBytes_eq]

include hlen

/-- The bytes of the ciphertext that `range` selects are the frames it names. -/
theorem subarray_frames (hseal : ∀ key iv aad x,
      (prim.gcmSeal key iv aad x).length = x.length + tagBytes)
    {selection : Selection} (hrange : c.range start end_ = some selection) :
    subarray selection.start (selection.end_ + 1) (c.frames prim plain 0 c.count) =
      c.frames prim plain selection.first (selection.last + 1 - selection.first) := by
  obtain ⟨hle, hend, rfl⟩ := range_eq_some.mp hrange
  have hpos := c.chunkBytes_pos
  let first := start / c.manifest.chunkBytes
  let last := end_ / c.manifest.chunkBytes
  have hfirst : first * c.manifest.chunkBytes ≤ start := Nat.div_mul_le_self _ _
  have hlast : last * c.manifest.chunkBytes ≤ end_ := Nat.div_mul_le_self _ _
  have horder : first ≤ last := Nat.div_le_div_right hle
  have hcount : last < c.count := lt_count.mpr (Nat.lt_of_le_of_lt hlast hend)
  have hnext : last + 1 ≤ c.count := hcount
  obtain ⟨mid, hmid⟩ : ∃ mid, last + 1 = first + mid :=
    Nat.exists_eq_add_of_le (Nat.le_succ_of_le horder)
  obtain ⟨post, hpost⟩ : ∃ post, c.count = last + 1 + post := Nat.exists_eq_add_of_le hnext
  have hupto : c.frames prim plain 0 (last + 1) =
      c.frames prim plain 0 first ++ c.frames prim plain first mid := by
    rw [hmid, frames_append, Nat.zero_add]
  have hsplit : c.frames prim plain 0 c.count =
      c.frames prim plain 0 first ++ c.frames prim plain first mid ++
        c.frames prim plain (last + 1) post := by
    rw [hpost, frames_append, Nat.zero_add, hupto]
  have hpre : (c.frames prim plain 0 first).length =
      first * (c.manifest.chunkBytes + tagBytes) := by
    rw [length_frames hlen hseal, Nat.mul_add]
    omega
  -- the selection ends where the last frame does, be it full or short
  have hupper : min c.manifest.ciphertextBytes
      ((last + 1) * (c.manifest.chunkBytes + tagBytes)) - 1 + 1 =
      (c.frames prim plain 0 first).length + (c.frames prim plain first mid).length := by
    have htags := Nat.mul_le_mul_right tagBytes hnext
    have hone := c.manifest.plaintextBytes_pos
    rw [← List.length_append, ← hupto, length_frames hlen hseal, ciphertextBytes_eq_count,
      Nat.mul_add]
    rcases Nat.lt_or_ge ((last + 1) * c.manifest.chunkBytes) c.manifest.plaintextBytes with h | h
    · have hfull : c.manifest.chunkBytes ≤ (last + 1) * c.manifest.chunkBytes :=
        Nat.le_mul_of_pos_left _ (Nat.succ_pos _)
      omega
    · have hlastCount : c.count = last + 1 := by
        apply Nat.le_antisymm _ hnext
        by_contra hmore
        have hbegin := lt_count.mp (Nat.lt_of_not_le hmore)
        omega
      rw [hlastCount]
      omega
  change subarray (first * (c.manifest.chunkBytes + tagBytes)) _ _ =
    c.frames prim plain first (last + 1 - first)
  have hlast : last + 1 - first = mid := by omega
  rw [hsplit, ← hpre, hlast]
  exact subarray_of_append hupper

/-! ## Round trip -/

omit hlen

theorem unsealFrame_eq (hindex : index < c.count) {x : Bytes}
    (hx : x.length = c.frameBytes index + tagBytes) :
    c.unsealFrame prim index x =
      prim.gcmOpen (c.frameKey prim index) (c.frameIv index) (c.frameAad prim index) x := by
  simp [unsealFrame, frame_eq hindex, hx]

/-- Where the frames of a range lie. -/
structure Covers (c : ExportCipher) (start end_ index : Nat) : Prop where
  le : start ≤ end_
  lt : end_ < c.manifest.plaintextBytes
  begins : start < (index + 1) * c.manifest.chunkBytes
  reaches : index * c.manifest.chunkBytes ≤ end_

theorem covers_of_between (hle : start ≤ end_) (hend : end_ < c.manifest.plaintextBytes)
    (hfirst : start / c.manifest.chunkBytes ≤ index)
    (hlast : index ≤ end_ / c.manifest.chunkBytes) : c.Covers start end_ index where
  le := hle
  lt := hend
  begins := (Nat.div_lt_iff_lt_mul c.chunkBytes_pos).mp (Nat.lt_succ_of_le hfirst)
  reaches := (Nat.le_div_iff_mul_le c.chunkBytes_pos).mp hlast

theorem Covers.lt_count (h : c.Covers start end_ index) : index < c.count :=
  ExportCipher.lt_count.mpr (Nat.lt_of_le_of_lt h.reaches h.lt)

/-- After the last frame nothing of the range is left. -/
theorem rangeFrom_last (hlast : last = end_ / c.manifest.chunkBytes) :
    c.rangeFrom plain start end_ (last + 1) = [] := by
  have hend : end_ + 1 ≤ (last + 1) * c.manifest.chunkBytes := by
    rw [hlast]
    exact (Nat.div_lt_iff_lt_mul c.chunkBytes_pos).mp (Nat.lt_succ_self _)
  have hzero : end_ + 1 - max start ((last + 1) * c.manifest.chunkBytes) = 0 := by omega
  rw [rangeFrom, subarray_eq, hzero, List.take_zero]

include hlen

/-- The true frames decrypt to the range, one frame after the other. -/
theorem decryptor_frames (haead : Aead prim) {len : Nat}
    (hlast : last = end_ / c.manifest.chunkBytes)
    (hcover : ∀ i, index ≤ i → i ≤ last → c.Covers start end_ i) (hindex : index + len = last + 1) :
    (c.decryptor prim start end_ last).bytes ⟨index, [], output⟩ (c.frames prim plain index len) =
      .ok ⟨last + 1, [], output ++ c.rangeFrom plain start end_ index⟩ := by
  induction len generalizing index output with
  | zero =>
      obtain rfl : index = last + 1 := hindex
      rw [rangeFrom_last hlast, List.append_nil]
      rfl
  | succ len ih =>
      have hle : index ≤ last := by omega
      have hc := hcover index (Nat.le_refl _) hle
      have hx := length_sealedFrame hlen haead.length_seal index
      have hopen : c.unsealFrame prim index (c.sealedFrame prim plain index) =
          some (c.plainFrame plain index) := by
        rw [unsealFrame_eq hc.lt_count hx]
        exact haead.opens _ _ _ _
      have hnext :=
        @ih (index + 1) (output ++ c.frameSlice start end_ index (c.plainFrame plain index))
        (fun i hi => hcover i (Nat.le_of_succ_le hi)) (by omega)
      rw [frames_succ, decryptor_opened hle hx hopen, hnext, List.append_assoc,
        ← rangeFrom_succ hlen hc.lt hc.le hc.reaches hc.begins]

end Decrypt

theorem decrypt_eq {start end_ : Nat} {selection : Selection}
    (hrange : c.range start end_ = some selection) (source : List Bytes) :
    c.decrypt prim source start end_ =
      match (c.decryptor prim start end_ selection.last).bytes ⟨selection.first, [], []⟩
          source.flatten with
      | .error output => ⟨output, false⟩
      | .ok s => ⟨s.output, s.frame.isEmpty && s.index = selection.last + 1⟩ := by
  have hchunks := (decryptor_lawful prim c start end_ selection.last).chunks_eq_bytes
    (s := ⟨selection.first, [], []⟩) (by simp [tagBytes]) source
  simp only [decrypt, hrange]
  exact hchunks ▸ rfl

/-- However the plaintext and the ciphertext are cut, a range of an export decrypts
to that range of the plaintext. -/
theorem export_round_trip (haead : Aead prim) (c : ExportCipher) {plain : Bytes}
    (hlen : plain.length = c.manifest.plaintextBytes)
    (hsha : prim.sha256 plain = c.manifest.plaintextSha256) {input : List Bytes}
    (hinput : input.flatten = plain) :
    ∃ ciphertext, c.encrypt prim input = ⟨ciphertext, true⟩ ∧
      ciphertext.length = encryptedBytes plain.length ∧
      ∀ start end_, start ≤ end_ → end_ < plain.length →
        ∃ selection, c.range start end_ = some selection ∧
          ∀ source : List Bytes,
            source.flatten = subarray selection.start (selection.end_ + 1) ciphertext →
            c.decrypt prim source start end_ = ⟨subarray start (end_ + 1) plain, true⟩ := by
  refine ⟨_, encrypt_eq hlen hsha hinput, ?_, ?_⟩
  · have hcover : c.manifest.plaintextBytes ≤ c.count * c.manifest.chunkBytes :=
      Nat.le_of_not_lt fun h => Nat.lt_irrefl _ (lt_count.mpr h)
    rw [length_frames hlen haead.length_seal, Nat.min_eq_right hcover, hlen,
      ← c.manifest.ciphertextBytes_eq, ciphertextBytes_eq_count]
  · intro start end_ hle hend
    rw [hlen] at hend
    refine ⟨_, range_eq_some.mpr ⟨hle, hend, rfl⟩, ?_⟩
    intro source hsource
    have hrange := range_eq_some.mpr ⟨hle, hend, rfl⟩
    rw [subarray_frames hlen haead.length_seal hrange] at hsource
    have horder : start / c.manifest.chunkBytes ≤ end_ / c.manifest.chunkBytes :=
      Nat.div_le_div_right hle
    rw [decrypt_eq hrange, hsource, decryptor_frames hlen haead rfl
      (fun i hi hi' => covers_of_between hle hend hi hi')
      (Nat.add_sub_cancel' (Nat.le_succ_of_le horder))]
    have hfirst : max start (start / c.manifest.chunkBytes * c.manifest.chunkBytes) = start :=
      Nat.max_eq_left (Nat.div_mul_le_self _ _)
    simp [rangeFrom, hfirst]

/-! ## Authenticity -/

/-- The four bytes of a nonce that number the frame give its index back. -/
theorem uint32BE_injective {i j : Nat} (hi : i < 2 ^ 32) (hj : j < 2 ^ 32)
    (h : uint32BE i = uint32BE j) : i = j := by
  have hbyte : ∀ {x y : Nat}, UInt8.ofNat (x % 256) = UInt8.ofNat (y % 256) →
      x % 256 = y % 256 := by
    intro x y hxy
    have hnat := congrArg UInt8.toNat hxy
    simpa using hnat
  simp only [uint32BE, List.map_cons, List.map_nil, List.cons.injEq] at h
  obtain ⟨h24, h16, h8, h0, -⟩ := h
  have e24 := hbyte h24
  have e16 := hbyte h16
  have e8 := hbyte h8
  have e0 := hbyte h0
  omega

/-- A frame opens at its own position only, and to its own plaintext. -/
theorem Ideal.unsealFrame (hideal : Ideal prim c plain) {index : Nat} (hindex : index < c.count)
    {x p : Bytes} (hopen : c.unsealFrame prim index x = some p) :
    x = c.sealedFrame prim plain index ∧ p = c.plainFrame plain index := by
  have hgcm : prim.gcmOpen (c.frameKey prim index) (c.frameIv index) (c.frameAad prim index) x =
      some p := by
    simp only [ExportCipher.unsealFrame, frame_eq hindex, Option.bind_eq_bind, Option.bind_some,
      Option.bind_eq_some_iff] at hopen
    obtain ⟨-, -, hopen⟩ := hopen
    exact hopen
  obtain ⟨i, hi, hkey, hiv, haad, rfl, rfl⟩ := hideal.only index _ _ x p hgcm
  have hsame : index = i :=
    uint32BE_injective (lt_of_lt_count hindex) (lt_of_lt_count hi) (List.append_cancel_left hiv)
  subst hsame
  exact ⟨rfl, rfl⟩

/-- What the decryptor makes of any bytes: it has yielded a part of the range, and it
is done exactly when the bytes are the frames of the range. -/
def Faithful (c : ExportCipher) (prim : Primitives) (plain : Bytes) (start end_ last index : Nat)
    (output bytes : Bytes) : Except Bytes Decrypting → Prop
  | .error output' =>
    (∃ part, part <+: c.rangeFrom plain start end_ index ∧ output' = output ++ part) ∧
      bytes ≠ c.frames prim plain index (last + 1 - index)
  | .ok s =>
    (∃ part, part <+: c.rangeFrom plain start end_ index ∧ s.output = output ++ part) ∧
      (s.frame = [] ∧ s.index = last + 1 ↔ bytes = c.frames prim plain index (last + 1 - index))

/-- The frame before bytes that the decryptor is faithful about. -/
theorem Faithful.cons {start end_ last index : Nat} {output slice bytes rest : Bytes}
    {r : Except Bytes Decrypting}
    (h : c.Faithful prim plain start end_ last (index + 1) (output ++ slice) rest r)
    (hrange : c.rangeFrom plain start end_ index =
      slice ++ c.rangeFrom plain start end_ (index + 1))
    (hbytes : bytes = c.frames prim plain index (last + 1 - index) ↔
      rest = c.frames prim plain (index + 1) (last + 1 - (index + 1))) :
    c.Faithful prim plain start end_ last index output bytes r := by
  have hpart : ∀ {output' : Bytes},
      (∃ part, part <+: c.rangeFrom plain start end_ (index + 1) ∧
        output' = output ++ slice ++ part) →
      ∃ part, part <+: c.rangeFrom plain start end_ index ∧ output' = output ++ part := by
    rintro output' ⟨part, hprefix, rfl⟩
    refine ⟨slice ++ part, ?_, List.append_assoc _ _ _⟩
    rw [hrange]
    exact (List.prefix_append_right_inj slice).mpr hprefix
  cases r with
  | error output' => exact ⟨hpart h.1, fun heq => h.2 (hbytes.mp heq)⟩
  | ok s => exact ⟨hpart h.1, h.2.trans hbytes.symm⟩

section Authentic

variable {start end_ last : Nat} (hlen : plain.length = c.manifest.plaintextBytes)
  (hideal : Ideal prim c plain) (hlast : last = end_ / c.manifest.chunkBytes)

include hlen hideal hlast

theorem decryptor_faithful {len index : Nat} {output bytes : Bytes}
    (hcover : ∀ i, index ≤ i → i ≤ last → c.Covers start end_ i) (hindex : index + len = last + 1) :
    c.Faithful prim plain start end_ last index output bytes
      ((c.decryptor prim start end_ last).bytes ⟨index, [], output⟩ bytes) := by
  have hsame : last + 1 - index = len := by omega
  have hpart : ∃ part, part <+: c.rangeFrom plain start end_ index ∧ output = output ++ part :=
    ⟨[], List.nil_prefix, (List.append_nil output).symm⟩
  induction len generalizing index output bytes with
  | zero =>
      -- the last frame is behind: only the empty stream is right
      cases bytes with
      | nil =>
          refine ⟨hpart, ?_⟩
          simp only [hsame, frames, List.range'_zero, List.flatMap_nil, iff_true, true_and]
          omega
      | cons b bs =>
          rw [decryptor_extra (by omega)]
          exact ⟨hpart, by simp [hsame, frames]⟩
  | succ len ih =>
      have hle : index ≤ last := by omega
      have hc := hcover index (Nat.le_refl _) hle
      have hx := length_sealedFrame hlen hideal.length_seal index
      by_cases hshort : bytes.length < c.frameBytes index + tagBytes
      · rw [decryptor_short hle hshort]
        refine ⟨hpart, ?_⟩
        rw [hsame, frames_succ]
        constructor
        · rintro ⟨-, hdone⟩
          change index = last + 1 at hdone
          omega
        · intro hbytes
          rw [hbytes, List.length_append, hx] at hshort
          omega
      · let x := bytes.take (c.frameBytes index + tagBytes)
        let rest := bytes.drop (c.frameBytes index + tagBytes)
        have hsplit : bytes = x ++ rest := (List.take_append_drop _ _).symm
        have hxlen : x.length = c.frameBytes index + tagBytes := by
          simp only [x, List.length_take]
          omega
        have hframes : bytes = c.frames prim plain index (len + 1) ↔
            x = c.sealedFrame prim plain index ∧ rest = c.frames prim plain (index + 1) len := by
          rw [hsplit, frames_succ]
          constructor
          · exact fun h => List.append_inj h (hxlen.trans hx.symm)
          · rintro ⟨hsealed, hrest⟩
            rw [hsealed, hrest]
        cases hopen : c.unsealFrame prim index x with
        | none =>
            rw [hsplit, decryptor_refused hle hxlen hopen, ← hsplit]
            refine ⟨hpart, ?_⟩
            rw [hsame, ne_eq, hframes]
            rintro ⟨hsealed, -⟩
            rw [hsealed, unsealFrame_eq hc.lt_count hx, hideal.opens index hc.lt_count] at hopen
            cases hopen
        | some p =>
            obtain ⟨hsealed, rfl⟩ := hideal.unsealFrame hc.lt_count hopen
            have hnext := @ih (index + 1)
              (output ++ c.frameSlice start end_ index (c.plainFrame plain index)) rest
              (fun i hi => hcover i (Nat.le_of_succ_le hi)) (by omega) (by omega)
              ⟨[], List.nil_prefix, (List.append_nil _).symm⟩
            have hrange := rangeFrom_succ hlen hc.lt hc.le hc.reaches hc.begins
            have hrest : last + 1 - (index + 1) = len := by omega
            rw [hsplit, decryptor_opened hle hxlen hopen, ← hsplit]
            refine hnext.cons hrange ?_
            rw [hsame, hrest, hframes, hsealed]
            exact and_iff_right rfl

end Authentic

/-- Against any stream, `decrypt` yields nothing but the requested range from its
start on, and ends normally exactly on the ciphertext of that range. -/
theorem decrypt_authentic (c : ExportCipher) {plain : Bytes}
    (hlen : plain.length = c.manifest.plaintextBytes)
    (hsha : prim.sha256 plain = c.manifest.plaintextSha256) (hideal : Ideal prim c plain)
    {input : List Bytes} (hinput : input.flatten = plain) (source : List Bytes)
    (start end_ : Nat) :
    (c.decrypt prim source start end_).output <+: subarray start (end_ + 1) plain ∧
      ((c.decrypt prim source start end_).ended ↔
        ∃ selection, c.range start end_ = some selection ∧
          source.flatten =
            subarray selection.start (selection.end_ + 1) (c.encrypt prim input).output) := by
  rw [encrypt_eq hlen hsha hinput]
  cases hrange : c.range start end_ with
  | none => simp [decrypt, hrange]
  | some selection =>
      -- The bytes of the range are the whole frames from the first to the last.
      have hslice := subarray_frames hlen hideal.length_seal hrange
      obtain ⟨hle, hend, hselection⟩ := range_eq_some.mp hrange
      have hfirst : selection.first = start / c.manifest.chunkBytes := by rw [hselection]
      have hlast : selection.last = end_ / c.manifest.chunkBytes := by rw [hselection]
      have horder : selection.first ≤ selection.last := by
        rw [hfirst, hlast]
        exact Nat.div_le_div_right hle
      have hfaithful : c.Faithful prim plain start end_ selection.last selection.first []
          source.flatten ((c.decryptor prim start end_ selection.last).bytes
            ⟨selection.first, [], []⟩ source.flatten) :=
        decryptor_faithful hlen hideal hlast
          (fun i hi hi' => covers_of_between hle hend (hfirst ▸ hi) (hlast ▸ hi'))
          (Nat.add_sub_cancel' (Nat.le_succ_of_le horder))
      have hall : c.rangeFrom plain start end_ selection.first =
          subarray start (end_ + 1) plain := by
        rw [rangeFrom, hfirst, Nat.max_eq_left (Nat.div_mul_le_self _ _)]
      rw [decrypt_eq hrange]
      simp only [Option.some.injEq, exists_eq_left', hslice]
      cases hresult : (c.decryptor prim start end_ selection.last).bytes
          ⟨selection.first, [], []⟩ source.flatten with
      | error output =>
          -- What was given out before the error is a prefix of the range.
          rw [hresult] at hfaithful
          obtain ⟨⟨part, hprefix, rfl⟩, hwrong⟩ := hfaithful
          exact ⟨hall ▸ hprefix, by simpa using hwrong⟩
      | ok s =>
          rw [hresult] at hfaithful
          obtain ⟨⟨part, hprefix, hout⟩, hdone⟩ := hfaithful
          refine ⟨?_, by simpa using hdone⟩
          change s.output <+: _
          rw [hout, ← hall]
          exact hprefix

/-! ## An export of three bytes -/

/-- A tag that depends on the nonce and on the length of the additional data. -/
def sampleTag (iv aad : Bytes) : Bytes :=
  (uint32BE aad.length ++ iv ++ List.replicate 16 0).take 16

theorem length_sampleTag (iv aad : Bytes) : (sampleTag iv aad).length = 16 := by
  simp [sampleTag, uint32BE]

/-- Stand-ins for the primitives: a frame opens when its tag is right. -/
def samplePrimitives : Primitives where
  hkdf root salt label := root ++ salt ++ utf8 label
  sha256 _ := "00"
  gcmSeal _ iv aad x := x ++ sampleTag iv aad
  gcmOpen _ iv aad y :=
    if y.drop (y.length - 16) = sampleTag iv aad then some (y.take (y.length - 16)) else none

theorem samplePrimitives_aead : Aead samplePrimitives where
  length_seal := by
    intro key iv aad x
    simp [samplePrimitives, length_sampleTag, tagBytes]
  opens := by
    intro key iv aad x
    simp [samplePrimitives, length_sampleTag]

def sampleManifest : Manifest where
  chunkBytes := exportChunkBytes
  plaintextBytes := 3
  ciphertextBytes := 19
  plaintextSha256 := "00"
  noncePrefix := [1, 2, 3, 4, 5, 6, 7, 8]
  salt := [9]
  context := "00"
  chunkBytes_eq := rfl
  plaintextBytes_pos := by decide
  plaintextBytes_le := by decide
  ciphertextBytes_eq := by decide
  noncePrefix_length := rfl

def sampleCipher : ExportCipher := ⟨sampleManifest, [7]⟩

theorem export_round_trip_of_three :
    ∃ ciphertext, sampleCipher.encrypt samplePrimitives [[10], [20, 30]] = ⟨ciphertext, true⟩ ∧
      ciphertext.length = encryptedBytes 3 ∧
      ∀ start end_, start ≤ end_ → end_ < 3 →
        ∃ selection, sampleCipher.range start end_ = some selection ∧
          ∀ source : List Bytes,
            source.flatten = subarray selection.start (selection.end_ + 1) ciphertext →
            sampleCipher.decrypt samplePrimitives source start end_ =
              ⟨subarray start (end_ + 1) [10, 20, 30], true⟩ :=
  export_round_trip samplePrimitives_aead sampleCipher rfl rfl rfl

/-- The same primitives, which open nothing but the frame of the sample. -/
def sampleIdeal : Primitives :=
  { samplePrimitives with
    gcmOpen := fun key iv aad y =>
      if key = sampleCipher.frameKey samplePrimitives 0 ∧ iv = sampleCipher.frameIv 0 ∧
          aad = sampleCipher.frameAad samplePrimitives 0 ∧
          y = samplePrimitives.gcmSeal key iv aad [10, 20, 30] then some [10, 20, 30]
      else none }

theorem sampleIdeal_ideal : Ideal sampleIdeal sampleCipher [10, 20, 30] where
  length_seal := samplePrimitives_aead.length_seal
  opens := by
    intro index hindex
    have hzero : index = 0 := by
      have hlt := lt_count.mp hindex
      simp only [sampleCipher, sampleManifest, exportChunkBytes] at hlt
      omega
    subst hzero
    exact if_pos ⟨rfl, rfl, rfl, rfl⟩
  only := by
    intro index iv aad y x hopen
    simp only [sampleIdeal] at hopen
    split at hopen
    · rename_i hsealed
      cases hopen
      obtain ⟨hkey, rfl, rfl, rfl⟩ := hsealed
      exact ⟨0, by decide, hkey.symm, rfl, rfl, rfl, rfl⟩
    · cases hopen

/-- A stream that ends in the middle of the frame. -/
theorem decrypt_authentic_of_three :
    (sampleCipher.decrypt sampleIdeal [[10, 20], [30, 0]] 1 2).output <+:
        subarray 1 3 [10, 20, 30] ∧
      ((sampleCipher.decrypt sampleIdeal [[10, 20], [30, 0]] 1 2).ended ↔
        ∃ selection, sampleCipher.range 1 2 = some selection ∧
          [[10, 20], [30, 0]].flatten = subarray selection.start (selection.end_ + 1)
            (sampleCipher.encrypt sampleIdeal [[10, 20], [30]]).output) :=
  decrypt_authentic sampleCipher rfl rfl sampleIdeal_ideal rfl [[10, 20], [30, 0]] 1 2

end ExportCipher

end Pluton.Export
