-- SUMMARY: Length-prefixed JSON frames are read back under any chunking, and no others are.
import Pluton.BigEndian
import Pluton.Lossy

/-!
# Frames

The two ends of the worker's socket exchange JSON values, each behind its length. `frames` keeps
what has arrived and yields a value whenever a whole frame is there. It yields the values of the
longest start of the stream that is frames, whatever the chunks are.
-/
namespace Pluton.MysqlWorker

/-! ## The protocol -/

def frameLimit : Nat := 96 * 1024

/-- `JSON.stringify` and `JSON.parse`, which throws on some texts. -/
structure Codec (Value : Type) where
  stringify : Value → String
  parse : String → Option Value

/-- How a generator ends, or what a promise is rejected with. -/
inductive Failure where
  | protocolError
  deriving DecidableEq

section
variable {Value : Type} (codec : Codec Value)

/-- The bytes that `send` writes. -/
def send (value : Value) : Except Failure (List UInt8) :=
  let body := Utf8.bytesOf (codec.stringify value)
  if frameLimit < body.length then .error .protocolError
  else .ok (BigEndian.encode 4 body.length ++ body)

/-- The loop over what is pending. What it yields, and what stays pending unless it throws. Every
turn takes bytes, so their number is enough fuel. -/
def takeFrames : Nat → List UInt8 → List Value × Except Failure (List UInt8)
  | 0, pending => ([], .ok pending)
  | fuel + 1, pending =>
    if pending.length < 4 then ([], .ok pending)
    else
      let size := BigEndian.decode (pending.take 4)
      if size = 0 ∨ frameLimit < size then ([], .error .protocolError)
      else if pending.length < size + 4 then ([], .ok pending)
      else
        match codec.parse (String.ofList (Utf8.lossy ((pending.drop 4).take size))) with
        | none => ([], .error .protocolError)
        | some value =>
          let (values, left) := takeFrames fuel (pending.drop (size + 4))
          (value :: values, left)

/-- The generator from a chunk on: what it yields and how it ends. -/
def framesFrom (pending : List UInt8) : List (List UInt8) → List Value × Except Failure Unit
  | [] => ([], if pending.isEmpty then .ok () else .error .protocolError)
  | chunk :: chunks =>
    let pending := pending ++ chunk
    match takeFrames codec pending.length pending with
    | (values, .error e) => (values, .error e)
    | (values, .ok pending) =>
      let (more, ending) := framesFrom pending chunks
      (values ++ more, ending)

def frames (chunks : List (List UInt8)) : List Value × Except Failure Unit :=
  framesFrom codec [] chunks

/-! ## Frames on the wire -/

/-- A complete frame: a length within the limit, and a body that is JSON. -/
structure Frame (frame : List UInt8) (value : Value) : Prop where
  whole : frame.length = BigEndian.decode (frame.take 4) + 4
  positive : 0 < BigEndian.decode (frame.take 4)
  fits : BigEndian.decode (frame.take 4) ≤ frameLimit
  body : codec.parse (String.ofList (Utf8.lossy (frame.drop 4))) = some value

/-- Complete frames, one after the other. -/
inductive Frames : List UInt8 → List Value → Prop where
  | nil : Frames [] []
  | cons {frame rest : List UInt8} {value : Value} {values : List Value}
      (head : Frame codec frame value)
      (tail : Frames rest values) : Frames (frame ++ rest) (value :: values)

end

/-! ## The first frame -/

section
variable {Value : Type} {codec : Codec Value}

theorem Frames.append {front back : List UInt8} {values values' : List Value}
    (h : Frames codec front values) (h' : Frames codec back values') :
    Frames codec (front ++ back) (values ++ values') := by
  induction h with
  | nil => exact h'
  | cons head tail ih =>
      rw [List.append_assoc]
      exact .cons head ih

end

section
variable {Value : Type} {codec : Codec Value}
  {bytes frame frame' rest more front front' : List UInt8} {value value' : Value}
  {values values' : List Value} {fuel : Nat}

/-- No frame stands at the start of the bytes. -/
def NoFrame (codec : Codec Value) (bytes : List UInt8) : Prop :=
  ∀ frame value, frame <+: bytes → ¬ Frame codec frame value

theorem Frame.length_ge (h : Frame codec frame value) : 4 < frame.length := by
  have hwhole := h.whole
  have hpositive := h.positive
  omega

theorem Frames.nil_values (h : Frames codec [] values) : values = [] := by
  generalize hbytes : ([] : List UInt8) = bytes at h
  cases h with
  | nil => rfl
  | cons head tail =>
      have hge := head.length_ge
      rw [(List.append_eq_nil_iff.mp hbytes.symm).1] at hge
      exact absurd hge (Nat.not_lt_zero _)

/-- The header of a frame is that of the bytes it stands in front of. -/
theorem Frame.header (h : Frame codec frame value) (hstart : frame <+: bytes) :
    frame.take 4 = bytes.take 4 := by
  obtain ⟨rest, rfl⟩ := hstart
  rw [List.take_append_of_le_length (Nat.le_of_lt h.length_ge)]

theorem Frame.unique (h : Frame codec frame value) (h' : Frame codec frame' value')
    (hstart : frame <+: bytes) (hstart' : frame' <+: bytes) : frame = frame' ∧ value = value' := by
  have hlength : frame.length = frame'.length := by
    rw [h.whole, h'.whole, h.header hstart, h'.header hstart']
  obtain rfl : frame = frame' :=
    (List.prefix_of_prefix_length_le hstart hstart' (Nat.le_of_eq hlength)).eq_of_length hlength
  exact ⟨rfl, Option.some.inj (h.body.symm.trans h'.body)⟩

theorem noFrame_nil : NoFrame codec [] := by
  intro frame value hstart hframe
  have hge := hframe.length_ge
  rw [List.prefix_nil.mp hstart] at hge
  exact Nat.not_lt_zero _ hge

/-- A frame needs its four bytes of length and its body. -/
theorem noFrame_of_short
    (h : bytes.length < 4 ∨ bytes.length < BigEndian.decode (bytes.take 4) + 4) :
    NoFrame codec bytes := by
  intro frame value hstart hframe
  have hle := hstart.length_le
  have hge := hframe.length_ge
  have hwhole := hframe.whole
  rw [hframe.header hstart] at hwhole
  omega

theorem noFrame_of_length (hlength : 4 ≤ bytes.length)
    (h : BigEndian.decode (bytes.take 4) = 0 ∨ frameLimit < BigEndian.decode (bytes.take 4))
    (more : List UInt8) :
    NoFrame codec (bytes ++ more) := by
  intro frame value hstart hframe
  have hheader := hframe.header hstart
  rw [List.take_append_of_le_length hlength] at hheader
  have hpositive := hframe.positive
  have hfits := hframe.fits
  rw [hheader] at hpositive hfits
  omega

/-- The whole frame at the start, when it is all there. -/
theorem take_frame (hlength : BigEndian.decode (bytes.take 4) + 4 ≤ bytes.length) :
    (bytes.take (BigEndian.decode (bytes.take 4) + 4)).take 4 = bytes.take 4 ∧
      (bytes.take (BigEndian.decode (bytes.take 4) + 4)).length =
        BigEndian.decode (bytes.take 4) + 4 := by
  constructor
  · rw [List.take_take, Nat.min_eq_left (Nat.le_add_left 4 _)]
  · rw [List.length_take_of_le hlength]

theorem noFrame_of_body (hlength : BigEndian.decode (bytes.take 4) + 4 ≤ bytes.length)
    (h : codec.parse
      (String.ofList (Utf8.lossy ((bytes.drop 4).take (BigEndian.decode (bytes.take 4))))) = none)
    (more : List UInt8) : NoFrame codec (bytes ++ more) := by
  intro frame value hstart hframe
  have hheader := hframe.header hstart
  rw [List.take_append_of_le_length (by omega)] at hheader
  have hwhole : frame.length = BigEndian.decode (bytes.take 4) + 4 := by rw [hframe.whole, hheader]
  have hframe' : frame = bytes.take (BigEndian.decode (bytes.take 4) + 4) := by
    rw [List.prefix_iff_eq_take.mp hstart, hwhole, List.take_append_of_le_length hlength]
  have hbody := hframe.body
  rw [hframe', List.drop_take, Nat.add_sub_cancel, h] at hbody
  cases hbody

/-! ## The loop -/

/-- How the loop leaves what no frame starts. -/
inductive Left (codec : Codec Value) (rest : List UInt8) : Except Failure (List UInt8) → Prop where
  | waiting : Left codec rest (.ok rest)
  -- whatever arrives, no frame will start here
  | broken (hne : rest ≠ []) (hmore : ∀ more, NoFrame codec (rest ++ more)) :
      Left codec rest (.error .protocolError)

theorem takeFrames_spec (hfuel : bytes.length ≤ fuel) :
    ∃ front rest, bytes = front ++ rest ∧
      Frames codec front (takeFrames codec fuel bytes).1 ∧ NoFrame codec rest ∧
      Left codec rest (takeFrames codec fuel bytes).2 := by
  -- On the fuel: a whole frame is at least five bytes, so each round has fewer bytes left.
  induction fuel generalizing bytes with
  | zero =>
      obtain rfl := List.eq_nil_of_length_eq_zero (Nat.le_zero.mp hfuel)
      exact ⟨[], [], rfl, .nil, noFrame_nil, .waiting⟩
  | succ fuel ih =>
      rw [takeFrames]
      by_cases hshort : bytes.length < 4
      · rw [if_pos hshort]
        exact ⟨[], bytes, rfl, .nil, noFrame_of_short (.inl hshort), .waiting⟩
      rw [if_neg hshort]
      dsimp only
      -- A length of zero or past the limit can never become a frame, whatever follows.
      by_cases hbounds : BigEndian.decode (bytes.take 4) = 0 ∨
        frameLimit < BigEndian.decode (bytes.take 4)
      · rw [if_pos hbounds]
        have hmore : ∀ more, NoFrame codec (bytes ++ more) :=
          noFrame_of_length (Nat.not_lt.mp hshort) hbounds
        have hne : bytes ≠ [] := fun hnil => hshort (by rw [hnil]; decide)
        exact ⟨[], bytes, rfl, .nil, List.append_nil bytes ▸ hmore [], .broken hne hmore⟩
      rw [if_neg hbounds]
      -- The announced bytes are not all there: the worker waits for more.
      by_cases hpart : bytes.length < BigEndian.decode (bytes.take 4) + 4
      · rw [if_pos hpart]
        exact ⟨[], bytes, rfl, .nil, noFrame_of_short (.inr hpart), .waiting⟩
      rw [if_neg hpart]
      have hlength := Nat.not_lt.mp hpart
      cases hparse : codec.parse
        (String.ofList (Utf8.lossy ((bytes.drop 4).take (BigEndian.decode (bytes.take 4))))) with
      | none =>
          have hmore := noFrame_of_body hlength hparse
          have hne : bytes ≠ [] := fun hnil => hshort (by rw [hnil]; decide)
          exact ⟨[], bytes, rfl, .nil, List.append_nil bytes ▸ hmore [], .broken hne hmore⟩
      | some value =>
          obtain ⟨hheader, hwhole⟩ := take_frame hlength
          have hframe : Frame codec (bytes.take (BigEndian.decode (bytes.take 4) + 4)) value := by
            rw [not_or] at hbounds
            constructor
            · rw [hheader, hwhole]
            · rw [hheader]
              exact Nat.pos_of_ne_zero hbounds.1
            · rw [hheader]
              exact Nat.not_lt.mp hbounds.2
            · rw [List.drop_take, Nat.add_sub_cancel]
              exact hparse
          have hrest : (bytes.drop (BigEndian.decode (bytes.take 4) + 4)).length ≤ fuel := by
            rw [List.length_drop]
            omega
          obtain ⟨front, rest, hsplit, hfronts, hnone, hleft⟩ := ih hrest
          refine ⟨_ ++ front, rest, ?_, .cons hframe hfronts, hnone, hleft⟩
          rw [List.append_assoc, ← hsplit, List.take_append_drop]

/-! ## Whole streams -/

theorem framesFrom_spec (hpending : NoFrame codec bytes) (chunks : List (List UInt8)) :
    ∃ front rest, bytes ++ chunks.flatten = front ++ rest ∧
      Frames codec front (framesFrom codec bytes chunks).1 ∧
      NoFrame codec rest ∧ (framesFrom codec bytes chunks).2 = if rest = [] then .ok ()
        else .error .protocolError := by
  induction chunks generalizing bytes with
  | nil =>
      refine ⟨[], bytes, List.append_nil bytes, .nil, hpending, ?_⟩
      cases bytes <;> rfl
  | cons chunk chunks ih =>
      obtain ⟨front, rest, hsplit, hfront, hnone, hleft⟩ :
          ∃ front rest, bytes ++ chunk = front ++ rest ∧
          Frames codec front (takeFrames codec (bytes ++ chunk).length (bytes ++ chunk)).1 ∧
          NoFrame codec rest ∧
          Left codec rest (takeFrames codec (bytes ++ chunk).length (bytes ++ chunk)).2 :=
            takeFrames_spec (Nat.le_refl _)
      rw [framesFrom]
      dsimp only
      generalize takeFrames codec (bytes ++ chunk).length (bytes ++ chunk) = taken at hfront hleft ⊢
      obtain ⟨values, left⟩ := taken
      rw [List.flatten_cons, ← List.append_assoc, hsplit, List.append_assoc]
      cases hleft with
      | waiting =>
          obtain ⟨front', rest', hsplit', hfront', hnone', hending⟩ := ih hnone
          exact ⟨front ++ front', rest', by rw [hsplit', List.append_assoc],
            hfront.append hfront', hnone', hending⟩
      | broken hne hmore =>
          refine ⟨front, rest ++ chunks.flatten, rfl, hfront, hmore chunks.flatten, ?_⟩
          rw [if_neg fun hnil => hne (List.append_eq_nil_iff.mp hnil).1]

/-- No frames reach further than those that nothing starts behind. -/
theorem Frames.le (h' : Frames codec front' values') (h : Frames codec front values)
    (hstart : front' <+: front ++ rest) (hnone : NoFrame codec rest) :
    ∃ more values'', front = front' ++ more ∧ values = values' ++ values'' ∧
      Frames codec more values'' := by
  induction h' generalizing front values with
  | nil => exact ⟨front, values, rfl, rfl, h⟩
  | @cons frame' _ value' values' hhead' htail' ih =>
      have hstart' : frame' <+: front ++ rest := (List.prefix_append _ _).trans hstart
      cases h with
      | nil => exact absurd hhead' (hnone frame' value' hstart')
      | @cons frame tail value values hhead htail =>
          have hstart'' : frame <+: frame ++ tail ++ rest := by
            rw [List.append_assoc]
            exact List.prefix_append _ _
          obtain ⟨rfl, rfl⟩ := hhead'.unique hhead hstart' hstart''
          rw [List.append_assoc, List.prefix_append_right_inj] at hstart
          obtain ⟨more, values'', rfl, rfl, hmore⟩ := ih htail hstart
          exact ⟨more, values'', (List.append_assoc _ _ _).symm, rfl, hmore⟩

/-! ## Written frames -/

/-- What `send` writes is a frame of its value. -/
theorem frame_of_send (hempty : codec.parse "" = none)
    (hround : ∀ value, codec.parse (codec.stringify value) = some value)
    (h : send codec value = .ok bytes) : Frame codec bytes value := by
  unfold send at h
  dsimp only at h
  split at h
  · cases h
  next hfits =>
    obtain rfl := Except.ok.inj h
    generalize hbody : Utf8.bytesOf (codec.stringify value) = body at hfits
    have hlimit : body.length ≤ frameLimit := Nat.not_lt.mp hfits
    have hheader : (BigEndian.encode 4 body.length ++ body).take 4 =
        BigEndian.encode 4 body.length := by
      rw [List.take_append_of_le_length (by rw [BigEndian.length_encode]),
        List.take_of_length_le (by rw [BigEndian.length_encode])]
    have hsize :
        BigEndian.decode ((BigEndian.encode 4 body.length ++ body).take 4) = body.length := by
      rw [hheader]
      exact BigEndian.decode_encode (Nat.lt_of_le_of_lt hlimit (by decide))
    constructor
    · rw [hsize, List.length_append, BigEndian.length_encode, Nat.add_comm]
    · rw [hsize]
      refine List.length_pos_iff.mpr fun hnil => ?_
      have htext : codec.stringify value = "" := by
        rw [← hbody] at hnil
        exact String.toList_inj.mp (Utf8.encode_inj (hnil.trans Utf8.encode_nil.symm))
      rw [← htext, hround] at hempty
      cases hempty
    · rwa [hsize]
    · have hdrop : (BigEndian.encode 4 body.length ++ body).drop 4 = body :=
        List.drop_left' (BigEndian.length_encode 4 _)
      rw [hdrop, ← hbody, Utf8.bytesOf, Utf8.lossy_encode, String.ofList_toList]
      exact hround value

theorem frames_of_send (hempty : codec.parse "" = none)
    (hround : ∀ value, codec.parse (codec.stringify value) = some value)
    {written : List (List UInt8)}
    (h : List.Forall₂ (fun value bytes => send codec value = .ok bytes) values written) :
    Frames codec written.flatten values := by
  induction h with
  | nil => exact .nil
  | cons hsend _ ih => exact .cons (frame_of_send hempty hround hsend) ih

/-- What is sent is read back, and every stream is read as the longest frames it starts with. -/
theorem frames_exact (hempty : codec.parse "" = none)
    (hround : ∀ value, codec.parse (codec.stringify value) = some value) :
    (∀ (values : List Value) (written chunks : List (List UInt8)),
      List.Forall₂ (fun value bytes => send codec value = .ok bytes) values written →
      chunks.flatten = written.flatten →
        frames codec chunks = (values, .ok ())) ∧
    ∀ chunks : List (List UInt8), ∃ front values,
      front <+: chunks.flatten ∧ Frames codec front values ∧
      (∀ front' values', front' <+: chunks.flatten →
        Frames codec front' values' → front' <+: front) ∧
      frames codec chunks = (values, if front = chunks.flatten then .ok ()
        else .error .protocolError) := by
  constructor
  · intro values written chunks hsent hchunks
    obtain ⟨front, rest, hsplit, hfront, hnone, hending⟩ :=
      framesFrom_spec (noFrame_nil : NoFrame codec []) chunks
    rw [List.nil_append, hchunks] at hsplit
    have hwritten := frames_of_send hempty hround hsent
    obtain ⟨more, values'', hmore, hvalues, htail⟩ :=
      hwritten.le hfront (hsplit ▸ List.prefix_refl _) hnone
    have hlength := congrArg List.length hsplit
    rw [hmore, List.length_append, List.length_append] at hlength
    obtain rfl : more = [] := List.eq_nil_of_length_eq_zero (by omega)
    obtain rfl : rest = [] := List.eq_nil_of_length_eq_zero (by omega)
    rw [htail.nil_values, List.append_nil] at hvalues
    exact Prod.ext hvalues hending
  · intro chunks
    obtain ⟨front, rest, hsplit, hfront, hnone, hending⟩ :=
      framesFrom_spec (noFrame_nil : NoFrame codec []) chunks
    rw [List.nil_append] at hsplit
    refine ⟨front, _, hsplit ▸ List.prefix_append _ _, hfront,
      fun front' values' hstart hframes => ?_, ?_⟩
    · obtain ⟨more, values'', hmore, -, -⟩ := hframes.le hfront (hsplit ▸ hstart) hnone
      exact hmore ▸ List.prefix_append _ _
    · have hwhole : front = chunks.flatten ↔ rest = [] := by
        rw [hsplit]
        exact ⟨fun h => List.self_eq_append_right.mp h, fun h => by rw [h, List.append_nil]⟩
      rw [frames, Prod.ext_iff]
      simp only [hending, hwhole, and_self]

end

/-- `JSON.stringify` and `JSON.parse` on the two truth values, for texts that are one of them. -/
def truthCodec : Codec Bool where
  stringify value := if value then "true" else "false"
  parse text := if text = "true" then some true else if text = "false" then some false else none

/-- Two values whose bytes arrive in three chunks, and a stream that breaks off. -/
theorem frames_exact_sample :
    frames truthCodec [[0, 0, 0], [4, 0x74, 0x72, 0x75, 0x65, 0, 0],
      [0, 5, 0x66, 0x61, 0x6C, 0x73, 0x65]] = ([true, false], .ok ()) ∧
      ∃ front values, front <+: [0, 0, 0, 4, 0x74, 0x72, 0x75, 0x65, 0] ∧
        Frames truthCodec front values ∧
        frames truthCodec [[0, 0, 0, 4, 0x74, 0x72, 0x75, 0x65, 0]] =
          (values, if front = [0, 0, 0, 4, 0x74, 0x72, 0x75, 0x65, 0] then .ok ()
            else .error .protocolError) := by
  have hempty : truthCodec.parse "" = none := by decide
  have hround : ∀ value, truthCodec.parse (truthCodec.stringify value) = some value := by decide
  obtain ⟨hsent, hlongest⟩ := frames_exact hempty hround
  constructor
  · refine hsent [true, false] [[0, 0, 0, 4, 0x74, 0x72, 0x75, 0x65],
      [0, 0, 0, 5, 0x66, 0x61, 0x6C, 0x73, 0x65]] _ ?_ rfl
    exact .cons (by decide +kernel) (.cons (by decide +kernel) .nil)
  · obtain ⟨front, values, hstart, hframes, -, hrun⟩ :=
      hlongest [[0, 0, 0, 4, 0x74, 0x72, 0x75, 0x65, 0]]
    exact ⟨front, values, hstart, hframes, hrun⟩

end Pluton.MysqlWorker
