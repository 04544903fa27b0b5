-- SUMMARY: The reader of metadata lines: a partial line, three limits, line by line.
import Pluton.Ends
import Pluton.Lines
import Pluton.Utf8
import Pluton.Js

/-!
# Metadata lines

`consumeMetadataLines` takes a listing chunk by chunk. It completes exactly if the whole stream
is lines that meet the limits and are UTF-8, however it is cut. The texts that are consumed are
those of the lines, except that the decoder drops a byte order mark at the start of a line.
-/
namespace Pluton.MetadataLines

/-! ## The reader -/

/-- What `consume` throws. -/
inductive Thrown (ε : Type) where
  | appError (error : ε)
  | other

/-- What the reader throws: `ManagedRepositoryAccessError` with a code, or
an `AppError` of `consume`. -/
inductive Failure (ε : Type) where
  | outputLimit
  | invalidOutput
  | appError (error : ε)

/-- `Buffer | string` -/
inductive Chunk where
  | buffer (bytes : List UInt8)
  | string (text : String)

/-- `Buffer.isBuffer(chunk) ? chunk : Buffer.from(chunk)` -/
def Chunk.bytes : Chunk → List UInt8
  | .buffer bytes => bytes
  | .string text => Utf8.bytesOf text

def defaultMaxLineBytes : Nat := 256 * 1024
def defaultMaxStreamBytes : Nat := 1024 ^ 3

/-- The variables between two chunks. `state` is what `consume` keeps. -/
structure Reader (σ : Type) where
  pending : List UInt8 := []
  total : Nat := 0
  state : σ

section
variable {σ ε : Type} (consume : σ → String → Except (Thrown ε) σ)
  (maxLineBytes maxStreamBytes : Nat)

/-- `await consume(decoder.decode(line))` -/
def deliver (s : σ) (line : List UInt8) : Except (Failure ε) σ :=
  match Js.decodeFatal line with
  | none => .error .invalidOutput
  | some text =>
    match consume s text with
    | .ok s => .ok s
    | .error (.appError error) => .error (.appError error)
    | .error .other => .error .invalidOutput

/-- The loop over the line ends of a chunk, from what is left of it. Every turn takes a byte at
least. The reader with its pending bytes comes back, and what is left. -/
def lineLoop : Nat → Reader σ → List UInt8 → Except (Failure ε) (Reader σ × List UInt8)
  | 0, r, bytes => .ok (r, bytes)
  | fuel + 1, r, bytes =>
    match bytes.findIdx? (· == 10) with
    | none => .ok (r, bytes)
    | some index =>
      if maxLineBytes < r.pending.length + index then .error .outputLimit
      else
        let line := r.pending ++ bytes.take index
        if line.isEmpty then .error .invalidOutput
        else do
          let state ← deliver consume r.state line
          lineLoop fuel { r with pending := [], state } (bytes.drop (index + 1))

def onChunk (r : Reader σ) (chunk : Chunk) : Except (Failure ε) (Reader σ) :=
  let bytes := chunk.bytes
  let total := r.total + bytes.length
  if maxStreamBytes < total then .error .outputLimit
  else do
    let (r, left) ← lineLoop consume maxLineBytes bytes.length { r with total } bytes
    if maxLineBytes < r.pending.length + left.length then .error .outputLimit
    else pure { r with pending := r.pending ++ left }

def consumeMetadataLines (s : σ) (chunks : List Chunk) : Except (Failure ε) σ := do
  let r ← chunks.foldlM (onChunk consume maxLineBytes maxStreamBytes) { state := s }
  -- end of file inside a record
  if r.pending.isEmpty then pure r.state else .error .invalidOutput

end

/-! ## What the stream is -/

/-- The bytes of all chunks. -/
def stream (chunks : List Chunk) : List UInt8 := (chunks.map Chunk.bytes).flatten

/-- A line that is accepted: bytes of a text, and within the limit. -/
structure GoodLine (maxLineBytes : Nat) (line : List UInt8) : Prop where
  nonempty : line ≠ []
  fits : line.length ≤ maxLineBytes
  utf8 : ∃ text, line = Utf8.bytesOf text

/-- Non-empty lines within the limits, each ended by a line feed. -/
structure WellFormed (maxLineBytes maxStreamBytes : Nat) (bytes : List UInt8) : Prop where
  fits : bytes.length ≤ maxStreamBytes
  ends : bytes = [] ∨ ∃ front, bytes = front ++ [10]
  lines : ∀ line ∈ Lines.ended 10 bytes, GoodLine maxLineBytes line

/-! ## Decoded lines -/

section
variable {line : List UInt8} {text : String}

theorem decodeFatal_unmarked (h : ¬ Utf8.Marked line) :
    Js.decodeFatal line = some text ↔ line = Utf8.bytesOf text := by
  rw [Js.decodeFatal, if_neg (mt List.isPrefixOf_iff_prefix.mp h)]
  exact Utf8.fromUTF8?_eq_some

theorem decodeFatal_marked (h : Utf8.Marked line) :
    Js.decodeFatal line = some text ↔ line = [0xEF, 0xBB, 0xBF] ++ Utf8.bytesOf text := by
  rw [Js.decodeFatal, if_pos (List.isPrefixOf_iff_prefix.mpr h)]
  refine Utf8.fromUTF8?_eq_some.trans ?_
  obtain ⟨rest, rfl⟩ := h
  exact (List.append_right_inj _).symm

theorem decodeFatal_accepts :
    (∃ text, Js.decodeFatal line = some text) ↔ ∃ text, line = Utf8.bytesOf text := by
  by_cases hmarked : Utf8.Marked line
  · constructor
    · rintro ⟨text, h⟩
      refine ⟨String.singleton '\uFEFF' ++ text, ?_⟩
      rw [Utf8.bytesOf_append]
      exact (decodeFatal_marked hmarked).mp h
    · rintro ⟨text, rfl⟩
      obtain ⟨rest, hrest⟩ := Utf8.marked_encode.mp hmarked
      refine ⟨String.ofList rest, (decodeFatal_marked hmarked).mpr ?_⟩
      rw [Utf8.bytesOf, Utf8.bytesOf, ← hrest, Utf8.encode_append, String.toList_ofList]
      rfl
  · constructor
    · rintro ⟨text, h⟩
      exact ⟨text, (decodeFatal_unmarked hmarked).mp h⟩
    · rintro ⟨text, h⟩
      exact ⟨text, (decodeFatal_unmarked hmarked).mpr h⟩

/-- What is consumed of a line has the line's bytes unless they start with the mark. -/
theorem decoded_bytes (h : Js.decodeFatal line = some text) :
    Utf8.bytesOf text = line ↔ ¬ Utf8.Marked line := by
  by_cases hmarked : Utf8.Marked line
  · refine iff_of_false (fun hbytes => ?_) (not_not_intro hmarked)
    have hlength := congrArg List.length ((decodeFatal_marked hmarked).mp h)
    rw [hbytes, List.length_append] at hlength
    exact absurd hlength (by simp)
  · exact iff_of_true ((decodeFatal_unmarked hmarked).mp h).symm hmarked

end

/-! ## One chunk -/

/-- What is consumed of a line. -/
def textOf (line : List UInt8) : String := (Js.decodeFatal line).getD ""

section
variable {σ ε : Type} {f : σ → String → σ} {maxLineBytes maxStreamBytes fuel : Nat} {r : Reader σ}
  {bytes done more : List UInt8}

variable (ε f) in
/-- A consumer that never throws. -/
def total : σ → String → Except (Thrown ε) σ := fun s text => .ok (f s text)

theorem deliver_ends {s : σ} {line : List UInt8} : (deliver (total ε f) s line).Ends
    (fun s' => (∃ text, line = Utf8.bytesOf text) ∧ s' = f s (textOf line)) fun _ => ¬ ∃ text,
      line = Utf8.bytesOf text := by
  rw [← decodeFatal_accepts, deliver, textOf]
  cases h : Js.decodeFatal line with
  | none => exact fun hsome => Option.some_ne_none _ hsome.choose_spec.symm
  | some text => exact ⟨⟨text, rfl⟩, rfl⟩

/-- What the loop leaves: lines that were all accepted and consumed, and the rest. -/
structure Taken (maxLineBytes : Nat) (f : σ → String → σ) (r : Reader σ) (bytes : List UInt8)
    (out : Reader σ × List UInt8) : Prop where
  good : ∀ line ∈ Lines.ended 10 (r.pending ++ bytes), GoodLine maxLineBytes line
  rest : out.1.pending ++ out.2 = Lines.rest 10 (r.pending ++ bytes)
  total : out.1.total = r.total
  state : out.1.state = ((Lines.ended 10 (r.pending ++ bytes)).map textOf).foldl f r.state

theorem lineLoop_ends (hfuel : bytes.length ≤ fuel) (hpending : 10 ∉ r.pending) :
    (lineLoop (total ε f) maxLineBytes fuel r bytes).Ends (Taken maxLineBytes f r bytes)
      fun _ => ¬ ∀ line ∈ Lines.ended 10 (r.pending ++ bytes), GoodLine maxLineBytes line := by
  have hleft : ∀ {r : Reader σ} {bytes : List UInt8}, 10 ∉ r.pending → 10 ∉ bytes →
      Taken maxLineBytes f r bytes (r, bytes) := by
    intro r bytes hpending hfree
    have hnone : 10 ∉ r.pending ++ bytes := fun hmem =>
      (List.mem_append.mp hmem).elim hpending hfree
    constructor <;> simp only [Lines.ended_of_not_mem hnone, Lines.rest_of_not_mem hnone]
    · nofun
    · rfl
  -- On the fuel: every round of the loop drops the line it took and its line feed.
  induction fuel generalizing r bytes with
  | zero =>
      obtain rfl := List.eq_nil_of_length_eq_zero (Nat.le_zero.mp hfuel)
      exact hleft hpending List.not_mem_nil
  | succ fuel ih =>
      by_cases hmem : 10 ∈ bytes
      · obtain ⟨front, more, rfl, hfree⟩ := List.eq_append_cons_of_mem hmem
        have hline : 10 ∉ r.pending ++ front := fun hin =>
          (List.mem_append.mp hin).elim hpending hfree
        have hended : Lines.ended 10 (r.pending ++ (front ++ 10 :: more)) =
            (r.pending ++ front) :: Lines.ended 10 more := by
          rw [← List.append_assoc, Lines.ended_line hline]
        have hrest : Lines.rest 10 (r.pending ++ (front ++ 10 :: more)) = Lines.rest 10 more := by
          rw [← List.append_assoc, Lines.rest_line hline]
        rw [List.length_append, List.length_cons] at hfuel
        rw [lineLoop, Lines.index_line hfree, hended]
        dsimp only
        rw [List.take_left, Lines.drop_line]
        -- Too long, empty, or delivered; the first two refuse a line that is not good.
        refine .ite (fun hlong hall => ?_) fun hfits => .ite (fun hempty hall => ?_) fun hne => ?_
        · have hlength := (hall _ List.mem_cons_self).fits
          rw [List.length_append] at hlength
          omega
        · exact (hall _ List.mem_cons_self).nonempty (List.isEmpty_iff.mp hempty)
        · refine (deliver_ends.mono (fun _ h => h) fun _ hnot hall => ?_).bind fun state hstate =>
            ?_
          · exact hnot (hall _ List.mem_cons_self).utf8
          -- Behind the line feed nothing is pending, so the induction starts afresh.
          refine (ih (by omega) List.not_mem_nil).mono (fun out hout => ?_) fun _ hnot hall => ?_
          · have hgood : GoodLine maxLineBytes (r.pending ++ front) :=
              ⟨fun hnil => hne (List.isEmpty_iff.mpr hnil),
                by rw [List.length_append]; exact Nat.not_lt.mp hfits, hstate.1⟩
            constructor
            · rw [hended]
              exact List.forall_mem_cons.mpr ⟨hgood, hout.good⟩
            · rw [hrest]
              exact hout.rest
            · exact hout.total
            · rw [hended, List.map_cons, List.foldl_cons, ← hstate.2]
              exact hout.state
          · exact hnot fun line hmem => hall line (List.mem_cons_of_mem _ hmem)
      · rw [lineLoop, Lines.index_none hmem]
        exact hleft hpending hmem

/-! ## Whole streams -/

/-- What has arrived can still be accepted. -/
structure Fine (maxLineBytes maxStreamBytes : Nat) (bytes : List UInt8) : Prop where
  fits : bytes.length ≤ maxStreamBytes
  lines : ∀ line ∈ Lines.ended 10 bytes, GoodLine maxLineBytes line
  rest : (Lines.rest 10 bytes).length ≤ maxLineBytes

theorem Fine.of_append (h : Fine maxLineBytes maxStreamBytes (done ++ more)) :
    Fine maxLineBytes maxStreamBytes done where
  fits := by
    have hfits := h.fits
    rw [List.length_append] at hfits
    omega
  lines line hmem := h.lines line (by rw [Lines.ended_append]; exact List.mem_append_left _ hmem)
  rest := by
    by_cases hmem : 10 ∈ more
    · -- the pending bytes are the start of a line that is ended later
      obtain ⟨front, tail, rfl, hfree⟩ := List.eq_append_cons_of_mem hmem
      have hline : 10 ∉ Lines.rest 10 done ++ front := fun hin =>
        (List.mem_append.mp hin).elim Lines.not_mem_rest hfree
      have hended := h.lines (Lines.rest 10 done ++ front) (by
        rw [Lines.ended_append, ← List.append_assoc, Lines.ended_line hline]
        exact List.mem_append_right _ List.mem_cons_self)
      have hfits := hended.fits
      rw [List.length_append] at hfits
      omega
    · have hrest := h.rest
      have hfree : 10 ∉ Lines.rest 10 done ++ more := fun hin =>
        (List.mem_append.mp hin).elim Lines.not_mem_rest hmem
      rw [Lines.rest_append, Lines.rest_of_not_mem hfree, List.length_append] at hrest
      omega

/-- The reader has taken what has arrived. -/
structure UpTo (f : σ → String → σ) (s : σ) (maxLineBytes maxStreamBytes : Nat) (done : List UInt8)
    (r : Reader σ) : Prop where
  fine : Fine maxLineBytes maxStreamBytes done
  pending : r.pending = Lines.rest 10 done
  total : r.total = done.length
  state : r.state = ((Lines.ended 10 done).map textOf).foldl f s

variable {s : σ}

theorem onChunk_ends (hr : UpTo f s maxLineBytes maxStreamBytes done r) (chunk : Chunk) :
    (onChunk (total ε f) maxLineBytes maxStreamBytes r chunk).Ends
      (UpTo f s maxLineBytes maxStreamBytes (done ++ chunk.bytes))
      fun _ => ¬ Fine maxLineBytes maxStreamBytes (done ++ chunk.bytes) := by
  have hpending : 10 ∉ r.pending := hr.pending ▸ Lines.not_mem_rest
  have hlines : ∀ line, line ∈ Lines.ended 10 (r.pending ++ chunk.bytes) →
      line ∈ Lines.ended 10 (done ++ chunk.bytes) := by
    intro line hmem
    rw [Lines.ended_append, ← hr.pending]
    exact List.mem_append_right _ hmem
  unfold onChunk
  dsimp only
  refine .ite (fun hlong hfine => ?_) fun hfits => ?_
  · have hlength := hfine.fits
    rw [List.length_append, ← hr.total] at hlength
    omega
  · have htaken :
        (lineLoop (total ε f) maxLineBytes chunk.bytes.length
          { r with total := r.total + chunk.bytes.length } chunk.bytes).Ends
        (Taken maxLineBytes f { r with total := r.total + chunk.bytes.length } chunk.bytes)
        fun _ => ¬ ∀ line ∈ Lines.ended 10 (r.pending ++ chunk.bytes), GoodLine maxLineBytes line :=
      lineLoop_ends (Nat.le_refl _) hpending
    have hloop :=
      htaken.mono (fun _ h => h) fun _ hnot
        (hfine : Fine maxLineBytes maxStreamBytes (done ++ chunk.bytes)) =>
          hnot fun line hmem => hfine.lines line (hlines line hmem)
    refine hloop.bind fun out hout => ?_
    have hrest : out.1.pending ++ out.2 = Lines.rest 10 (done ++ chunk.bytes) := by
      rw [Lines.rest_append, ← hr.pending]
      exact hout.rest
    refine .ite (fun hlong hfine => ?_) fun hshort => ?_
    · have hlength := hfine.rest
      rw [← hrest, List.length_append] at hlength
      omega
    · have hlength : (done ++ chunk.bytes).length = r.total + chunk.bytes.length := by
        rw [List.length_append, hr.total]
      refine ⟨⟨?_, ?_, ?_⟩, hrest, ?_, ?_⟩
      · rw [hlength]
        exact Nat.not_lt.mp hfits
      · rw [Lines.ended_append, ← hr.pending]
        exact fun line hmem => (List.mem_append.mp hmem).elim (hr.fine.lines line) (hout.good line)
      · rw [← hrest, List.length_append]
        exact Nat.not_lt.mp hshort
      · rw [hlength]
        exact hout.total
      · rw [Lines.ended_append, ← hr.pending, List.map_append, List.foldl_append, ← hr.state]
        exact hout.state

theorem chunks_ends (hr : UpTo f s maxLineBytes maxStreamBytes done r) (chunks : List Chunk) :
    (chunks.foldlM (onChunk (total ε f) maxLineBytes maxStreamBytes) r).Ends
      (UpTo f s maxLineBytes maxStreamBytes (done ++ stream chunks))
      fun _ => ¬ Fine maxLineBytes maxStreamBytes (done ++ stream chunks) := by
  induction chunks generalizing done r with
  | nil =>
      have hnil : done ++ stream [] = done := List.append_nil done
      rw [hnil]
      exact hr
  | cons chunk chunks ih =>
      have hcons : done ++ stream (chunk :: chunks) = (done ++ chunk.bytes) ++ stream chunks := by
        rw [stream, List.map_cons, List.flatten_cons, List.append_assoc]
        rfl
      rw [List.foldlM_cons, hcons]
      refine ((onChunk_ends hr chunk).mono (fun _ h => h) fun _ hnot hfine =>
        ?_).bind fun next hnext => ih hnext
      exact hnot hfine.of_append

theorem wellFormed_iff : WellFormed maxLineBytes maxStreamBytes bytes ↔
    Fine maxLineBytes maxStreamBytes bytes ∧ Lines.rest 10 bytes = [] := by
  constructor
  · intro h
    have hrest := Lines.rest_eq_nil.mpr h.ends
    exact ⟨⟨h.fits, h.lines, by rw [hrest]; exact Nat.zero_le _⟩, hrest⟩
  · rintro ⟨hfine, hrest⟩
    exact ⟨hfine.fits, Lines.rest_eq_nil.mp hrest, hfine.lines⟩

/-- With a consumer that never throws, the reader completes on well-formed streams and fails on
all others, whatever the chunks are. -/
theorem reader_ends (s : σ) (chunks : List Chunk) :
    (consumeMetadataLines (total ε f) maxLineBytes maxStreamBytes s chunks).Ends
      (fun s' => WellFormed maxLineBytes maxStreamBytes (stream chunks) ∧
        s' = ((Lines.ended 10 (stream chunks)).map textOf).foldl f s)
      fun _ => ¬ WellFormed maxLineBytes maxStreamBytes (stream chunks) := by
  rw [wellFormed_iff]
  have hstart : UpTo f s maxLineBytes maxStreamBytes [] { state := s } :=
    ⟨⟨Nat.zero_le _, nofun, Nat.zero_le _⟩, rfl, rfl, rfl⟩
  refine ((chunks_ends hstart chunks).mono (fun _ h => h) fun _ hnot hwell =>
    hnot hwell.1).bind fun r hr => ?_
  refine .ite (fun hempty => ?_) fun hmore hwell => ?_
  · exact ⟨⟨hr.fine, hr.pending ▸ List.isEmpty_iff.mp hempty⟩, hr.state⟩
  · exact hmore (List.isEmpty_iff.mpr (hr.pending.trans hwell.2))

end

section
variable {maxLineBytes maxStreamBytes : Nat} {chunks : List Chunk}

/-- The consumer that keeps the texts it has got. -/
def keep (texts : List String) (text : String) : List String := texts ++ [text]

theorem foldl_keep (front texts : List String) : texts.foldl keep front = front ++ texts := by
  induction texts generalizing front with
  | nil => exact (List.append_nil front).symm
  | cons text texts ih => rw [List.foldl_cons, ih, keep, List.append_assoc, List.singleton_append]

/-- The reader completes exactly on well-formed streams, and then every consumer has got the
texts with the bytes of the lines, if and only if no line of a well-formed stream starts with
the byte order mark. -/
theorem consumeMetadataLines_exact :
    (∀ (σ ε : Type) (f : σ → String → σ) (s : σ),
      ((∃ s', consumeMetadataLines (total ε f) maxLineBytes maxStreamBytes s chunks = .ok s') ↔
        WellFormed maxLineBytes maxStreamBytes (stream chunks)) ∧
      ∀ s', consumeMetadataLines (total ε f) maxLineBytes maxStreamBytes s chunks = .ok s' →
        ∃ texts : List String, texts.map Utf8.bytesOf = Lines.ended 10 (stream chunks) ∧
          s' = texts.foldl f s) ↔
    (WellFormed maxLineBytes maxStreamBytes (stream chunks) →
      ∀ line ∈ Lines.ended 10 (stream chunks), ¬ Utf8.Marked line) := by
  constructor
  · intro h hwell line hline
    obtain ⟨hiff, hcalls⟩ := h (List String) Empty keep []
    obtain ⟨kept, hok⟩ := hiff.mpr hwell
    obtain ⟨texts, htexts, hsame⟩ := hcalls kept hok
    have hkept := ((reader_ends [] chunks).of_ok hok).2
    rw [hsame, foldl_keep, foldl_keep, List.nil_append, List.nil_append] at hkept
    rw [hkept, List.map_map] at htexts
    have hsame : (Lines.ended 10 (stream chunks)).map (Utf8.bytesOf ∘ textOf) =
        (Lines.ended 10 (stream chunks)).map id :=
      htexts.trans (List.map_id _).symm
    have hbytes : Utf8.bytesOf (textOf line) = line := List.map_inj_left.mp hsame line hline
    obtain ⟨text, htext⟩ := decodeFatal_accepts.mpr (hwell.lines line hline).utf8
    rw [textOf, htext] at hbytes
    exact (decoded_bytes htext).mp hbytes
  · intro h σ ε f s
    have hends : (consumeMetadataLines (total ε f) maxLineBytes maxStreamBytes s chunks).Ends _ _ :=
      reader_ends s chunks
    refine ⟨⟨fun ⟨s', hok⟩ => (hends.of_ok hok).1, fun hwell => ?_⟩, fun s' hok => ?_⟩
    · cases hrun : consumeMetadataLines (total ε f) maxLineBytes maxStreamBytes s chunks with
      | ok s' => exact ⟨s', rfl⟩
      | error e => exact absurd hwell (hends.of_error hrun)
    · obtain ⟨hwell, hsame⟩ := hends.of_ok hok
      refine ⟨_, ?_, hsame⟩
      rw [List.map_map]
      refine (List.map_congr_left fun line hline => ?_).trans (List.map_id _)
      obtain ⟨text, htext⟩ := decodeFatal_accepts.mpr (hwell.lines line hline).utf8
      rw [Function.comp_apply, textOf, htext]
      exact (decoded_bytes htext).mpr (h hwell line hline)

/-- The line `{}` behind a byte order mark is a text of three characters, and two are consumed. -/
theorem marked_line_shortened :
    WellFormed defaultMaxLineBytes defaultMaxStreamBytes (stream [.buffer [0xEF, 0xBB,
      0xBF, 0x7B, 0x7D, 0x0A]]) ∧
      consumeMetadataLines (total Empty keep) defaultMaxLineBytes defaultMaxStreamBytes []
        [.buffer [0xEF, 0xBB, 0xBF, 0x7B, 0x7D, 0x0A]] = .ok ["\x7b\x7d"] ∧
      Lines.ended 10 (stream [.buffer [0xEF, 0xBB, 0xBF, 0x7B, 0x7D, 0x0A]]) =
        [Utf8.bytesOf "\uFEFF\x7b\x7d"] := by
  have hended : Lines.ended 10 (stream [.buffer [0xEF, 0xBB, 0xBF, 0x7B, 0x7D, 0x0A]]) =
      [Utf8.bytesOf "\uFEFF\x7b\x7d"] := by
    decide +kernel
  refine ⟨⟨by decide, .inr ⟨[0xEF, 0xBB, 0xBF, 0x7B, 0x7D], rfl⟩, fun line hline => ?_⟩, ?_, hended⟩
  · obtain rfl := List.mem_singleton.mp (hended ▸ hline)
    exact ⟨by decide +kernel, by decide +kernel, _, rfl⟩
  · rfl

end

end Pluton.MetadataLines
