-- SUMMARY: If chunks cut no character and fit the buffer, the calls are the complete lines.
import Pluton.AgentOutput.RunProgram
import Pluton.Lines

/-!
# Calls and lines

A call should be made for every line of the stream that is an object, whatever the chunks are.
Decoding a text and splitting it commute, so that holds as long as nothing is decoded in parts
and nothing is dropped. Both can be read off before a chunk arrives. Where a chunk begins inside
a character the object changes, and where the buffer is full ended lines are lost.
-/
namespace Pluton.AgentOutput

open Lines (ended rest Linewise)

/-! ## Decoding keeps lines -/

section
variable {chars : List Char} {done chunk : List UInt8}

theorem codeUnits_append (front back : List Char) : Js.codeUnits (String.ofList (front ++ back)) =
    Js.codeUnits (String.ofList front) ++ Js.codeUnits (String.ofList back) := by
  simp only [Js.codeUnits, String.toList_ofList, List.flatMap_append]

theorem codeUnits_cons (ch : Char) (chars : List Char) :
    Js.codeUnits (String.ofList (ch :: chars)) =
    Js.codeUnits (String.ofList [ch]) ++ Js.codeUnits (String.ofList chars) :=
  codeUnits_append [ch] chars

theorem newline_mem (h : newline ∈ Js.codeUnits (String.ofList chars)) : '\n' ∈ chars := by
  rw [Js.codeUnits, String.toList_ofList, List.mem_flatMap] at h
  obtain ⟨ch, hch, hunit⟩ := h
  split at hunit
  · have hval : ch.toNat = newline := (List.mem_singleton.mp hunit).symm
    have heq : ch = '\n' := by rw [← Char.ofNat_toNat ch, hval]; rfl
    exact heq ▸ hch
  · -- the halves of a surrogate pair lie above all line ends
    simp only [newline, List.mem_cons, List.not_mem_nil, or_false] at hunit
    omega

theorem linewise_codeUnits :
    Linewise '\n' newline fun chars => Js.codeUnits (String.ofList chars) where
  line front more := by
    have hone : Js.codeUnits (String.ofList ['\n']) = [newline] := by decide
    rw [codeUnits_append, codeUnits_cons, hone, List.singleton_append]
  free chars hfree hmem := hfree (newline_mem hmem)

theorem linewise_lossy : Linewise (10 : UInt8) '\n' Utf8.lossy where
  line front more := by
    have hascii : (10 : UInt8).toNat < 0x80 := by decide
    have hnewline : '\n'.toNat < 0x80 := by decide
    have hhead : Utf8.lossy (10 :: more) = '\n' :: Utf8.lossy more := Utf8.lossy_ascii hnewline
    rw [Utf8.lossy_append_ascii hascii, hhead]
  free bytes hfree hmem := by
    obtain ⟨front, back, hlossy⟩ := List.append_of_mem hmem
    obtain ⟨before, behind, rfl, -, -⟩ := Utf8.lossy_split hlossy (by decide)
    exact hfree (List.mem_append_right before List.mem_cons_self)

theorem linewise_textOf : Linewise (10 : UInt8) newline textOf :=
  linewise_codeUnits.comp linewise_lossy

theorem textOf_of_cut (h : Utf8.Cuts done chunk) :
    textOf (done ++ chunk) = textOf done ++ textOf chunk := by
  rw [textOf, h.lossy, codeUnits_append]
  rfl

theorem length_codeUnits_le (ch : Char) :
    (Js.codeUnits (String.ofList [ch])).length ≤ ch.utf8Size := by
  simp only [Js.codeUnits, String.toList_ofList, List.flatMap_cons,
    List.flatMap_nil, List.append_nil]
  split
  · exact ch.utf8Size_pos
  next hlarge =>
    have hsize : ch.utf8Size = 4 :=
      Char.utf8Size_eq_four_iff.mpr
        (UInt32.lt_iff_toNat_lt.mpr (Nat.lt_of_lt_of_le (by decide) (Nat.not_lt.mp hlarge)))
    rw [hsize]
    exact Nat.le_add_left 2 2

/-- A text has no more units than there were bytes. -/
theorem length_textOf_le (bytes : List UInt8) : (textOf bytes).length ≤ bytes.length := by
  unfold textOf Utf8.lossy
  induction bytes using Utf8.pieces_induction with
  | nil => exact Nat.le_refl _
  | char ch rest ih =>
      rw [Utf8.pieces_encodeChar, List.map_cons, Utf8.Piece.shown, codeUnits_cons,
        List.length_append, List.length_append, String.length_utf8EncodeChar]
      exact Nat.add_le_add (length_codeUnits_le ch) ih
  | ill bytes hne hfirst ih =>
      have hone : (Js.codeUnits (String.ofList ['\uFFFD'])).length = 1 := rfl
      have hbounds := Utf8.illLength_bounds hne
      rw [List.length_drop] at ih
      rw [Utf8.pieces_ill hne hfirst, List.map_cons, Utf8.Piece.shown, codeUnits_cons,
        List.length_append, hone]
      omega

end

/-! ## The buffer -/

section
variable {Record : Type} {parse : Text → Option (Parsed Record)} {limit : Option Nat}
  {s : State Record} {done chunk : List UInt8} {chunks : List (List UInt8)}

theorem appendBounded_fits {existing chunk : Text} {limit : Nat}
    (h : existing.length + chunk.length ≤ limit) :
    appendBounded existing chunk limit = existing ++ chunk := by
  unfold appendBounded
  split
  next hfull =>
    have hempty : chunk = [] := List.eq_nil_of_length_eq_zero (by omega)
    rw [hempty, List.append_nil]
  · exact List.take_of_length_le (by rw [List.length_append]; exact h)

theorem consumeLine_eq (line : Text) :
    consumeLine parse line s = { s with
      eventChain := s.eventChain ++ (message parse line).toList } := by
  unfold consumeLine
  cases message parse line with
  | none => rw [Option.toList_none, List.append_nil]
  | some record => rfl

theorem drain_eq {fuel : Nat} (h : s.stdoutBuffer.length ≤ fuel) : drain parse fuel s =
    { s with
      stdoutBuffer := rest newline s.stdoutBuffer
      eventChain := s.eventChain ++ (ended newline s.stdoutBuffer).filterMap (message parse) } := by
  induction fuel generalizing s with
  | zero =>
      have hempty := List.eq_nil_of_length_eq_zero (Nat.le_zero.mp h)
      have hfree : newline ∉ s.stdoutBuffer := by rw [hempty]; exact List.not_mem_nil
      rw [drain, Lines.rest_of_not_mem hfree, Lines.ended_of_not_mem hfree,
        List.filterMap_nil, List.append_nil]
  | succ fuel ih =>
      by_cases hmem : newline ∈ s.stdoutBuffer
      · obtain ⟨front, more, hbuffer, hfree⟩ := List.eq_append_cons_of_mem hmem
        have hindex : s.stdoutBuffer.findIdx? (· == newline) = some front.length := by
          rw [hbuffer, Lines.index_line hfree]
        have hmore : s.stdoutBuffer.drop (front.length + 1) = more := by
          rw [hbuffer, Lines.drop_line]
        rw [hbuffer, List.length_append, List.length_cons] at h
        rw [drain, hindex]
        dsimp only
        rw [consumeLine_eq, ih (by simp only [hmore]; omega)]
        simp only [hmore]
        have hcons : (front :: ended newline more).filterMap (message parse) =
            (message parse front).toList ++ (ended newline more).filterMap (message parse) := by
          rw [List.filterMap_cons]
          cases message parse front <;> rfl
        rw [hbuffer, List.take_left, Lines.rest_line hfree, Lines.ended_line hfree,
          hcons, List.append_assoc]
      · rw [drain, Lines.index_none hmem, Lines.rest_of_not_mem hmem, Lines.ended_of_not_mem hmem,
          List.filterMap_nil, List.append_nil]

theorem onData_eq : onData parse limit s chunk =
    { stdout := appendBounded s.stdout (textOf chunk) (limit.getD maxOutputBytes)
      outputBytes := s.outputBytes + (Utf8.encode (Utf8.lossy chunk)).length
      stdoutBuffer := rest newline (appendBounded s.stdoutBuffer (textOf chunk) maxOutputBytes)
      eventChain := s.eventChain ++
        (ended newline (appendBounded s.stdoutBuffer (textOf chunk) maxOutputBytes)).filterMap
        (message parse) } :=
  drain_eq (Nat.le_refl _)

/-! ## Runs -/

/-- The chunk begins between two characters or ill-formed sequences of the stream, and its text
has room behind the pending line. -/
structure Room (done : List UInt8) (s : State Record) (chunk : List UInt8) : Prop where
  cut : Utf8.Cuts done chunk
  fits : s.stdoutBuffer.length + (textOf chunk).length ≤ maxOutputBytes

variable (parse limit) in
/-- Every chunk of a run meets that. -/
def Roomy : List UInt8 → State Record → List (List UInt8) → Prop
  | _, _, [] => True
  | done, s, chunk :: chunks =>
      Room done s chunk ∧ Roomy (done ++ chunk) (onData parse limit s chunk) chunks

variable (parse) in
/-- The objects that lines are, each decoded as a whole. -/
def objectLines (lines : List (List UInt8)) : List Record :=
  lines.filterMap fun line => message parse (textOf line)

variable (parse) in
/-- The calls are those of the ended lines, and the buffer is the rest. -/
structure UpTo (done : List UInt8) (s : State Record) : Prop where
  chain : s.eventChain = objectLines parse (ended 10 done)
  buffer : s.stdoutBuffer = textOf (rest 10 done)

theorem ended_textOf (bytes : List UInt8) :
    (ended newline (textOf bytes)).filterMap (message parse) =
      objectLines parse (ended 10 bytes) := by
  rw [linewise_textOf.ended, List.filterMap_map]
  rfl

theorem onData_upTo (hroom : Room done s chunk) (hs : UpTo parse done s) :
    UpTo parse (done ++ chunk) (onData parse limit s chunk) := by
  have hbuffer : s.stdoutBuffer = rest newline (textOf done) := by
    rw [hs.buffer, linewise_textOf.rest]
  have htext : textOf (done ++ chunk) = textOf done ++ textOf chunk := textOf_of_cut hroom.cut
  rw [onData_eq, appendBounded_fits hroom.fits]
  constructor
  · dsimp only
    rw [hs.chain, hbuffer, ← ended_textOf, ← ended_textOf, htext, Lines.ended_append (textOf done),
      List.filterMap_append]
  · dsimp only
    rw [hbuffer, ← Lines.rest_append, ← htext, linewise_textOf.rest]

theorem run_upTo (hroomy : Roomy parse limit done s chunks) (hs : UpTo parse done s) :
    UpTo parse (done ++ chunks.flatten) (run parse limit s chunks) := by
  induction chunks generalizing done s with
  | nil => rwa [List.flatten_nil, List.append_nil]
  | cons chunk chunks ih =>
      have hend := ih hroomy.2 (onData_upTo hroomy.1 hs)
      rwa [List.append_assoc, ← List.flatten_cons] at hend

theorem Roomy.of_prefix {before : List (List UInt8)} (h : before <+: chunks)
    (hroomy : Roomy parse limit done s chunks) :
    Roomy parse limit done s before := by
  induction before generalizing chunks done s with
  | nil => trivial
  | cons chunk before ih =>
      obtain ⟨after, rfl⟩ := h
      exact ⟨hroomy.1, ih (List.prefix_append before after) hroomy.2⟩

theorem calls_of_none {rejects : List Record → Record → Bool}
    (h : ∀ made record, rejects made record = false) (made chain : List Record) :
    calls rejects made chain = made ++ chain := by
  induction chain generalizing made with
  | nil => exact (List.append_nil made).symm
  | cons record chain ih =>
      rw [calls, h made record, if_neg Bool.false_ne_true, ih, List.append_assoc,
        List.singleton_append]

theorem close_eq (hs : UpTo parse done s) :
    (close parse s).eventChain = objectLines parse (done.splitOn 10) := by
  have hlast : (objectLines parse [rest 10 done]) =
      (message parse (textOf (rest 10 done))).toList := by
    rw [objectLines, List.filterMap_cons]
    cases message parse (textOf (rest 10 done)) <;> rfl
  rw [close, consumeLine_eq, Lines.splitOn_eq, objectLines, List.filterMap_append,
    hs.buffer, hs.chain]
  exact congrArg _ hlast.symm

/-! ## The text that is kept -/

/-- What is kept is the front of the text, and no text is longer than what was counted. -/
structure Kept (limit : Nat) (text : Text) (s : State Record) : Prop where
  stdout : s.stdout = text.take limit
  counted : text.length ≤ s.outputBytes

theorem appendBounded_take (text chunk : Text) (limit : Nat) :
    appendBounded (text.take limit) chunk limit = (text ++ chunk).take limit := by
  unfold appendBounded
  by_cases hlength : limit ≤ text.length
  · rw [if_pos (by rw [List.length_take_of_le hlength]), List.take_append_of_le_length hlength]
  · have hall : text.take limit = text := List.take_of_length_le (Nat.le_of_not_le hlength)
    rw [hall, if_neg hlength]

theorem onData_kept {text : Text} (h : Kept (limit.getD maxOutputBytes) text s) :
    Kept (limit.getD maxOutputBytes) (text ++ textOf chunk) (onData parse limit s chunk) := by
  rw [onData_eq]
  constructor
  · dsimp only
    rw [h.stdout, appendBounded_take]
  · have hchunk := length_textOf_le chunk
    have hcounted := h.counted
    dsimp only
    rw [List.length_append, Utf8.length_encode_lossy]
    omega

theorem run_kept {text : Text} (h : Kept (limit.getD maxOutputBytes) text s) :
    Kept (limit.getD maxOutputBytes) (text ++ chunks.flatMap textOf)
      (run parse limit s chunks) := by
  induction chunks generalizing text s with
  | nil => rwa [List.flatMap_nil, List.append_nil]
  | cons chunk chunks ih =>
      have hnext : Kept (limit.getD maxOutputBytes) (text ++ textOf chunk)
          (onData parse limit s chunk) := onData_kept h
      have hend := ih hnext
      rwa [List.append_assoc, ← List.flatMap_cons] at hend

/-- A result that is not marked as truncated is the whole text. -/
theorem result_whole (h : (result limit (run parse limit {} chunks)).2 = false) :
    (result limit (run parse limit {} chunks)).1 = chunks.flatMap textOf := by
  have hkept :
      Kept (limit.getD maxOutputBytes) ([] ++ chunks.flatMap textOf) (run parse limit {} chunks) :=
    run_kept ⟨List.take_nil.symm, Nat.le_refl 0⟩
  have hbytes : (run parse limit {} chunks).outputBytes ≤ limit.getD maxOutputBytes := by
    rw [result, decide_eq_false_iff_not] at h
    exact Nat.le_of_not_lt h
  rw [result, hkept.stdout]
  exact List.take_of_length_le (Nat.le_trans hkept.counted hbytes)

/-! ## What has room -/

/-- A chunk that follows a line end and is not longer than the buffer has room. -/
theorem room_of_line_end (hs : UpTo parse (done ++ [10]) s)
    (hchunk : chunk.length ≤ maxOutputBytes) :
    Room (done ++ [10]) s chunk where
  cut := by
    have hascii : (10 : UInt8).toNat < 0x80 := by decide
    have hnewline : '\n'.toNat < 0x80 := by decide
    have hhead : Utf8.pieces (10 :: chunk) = .char '\n' :: Utf8.pieces chunk :=
      Utf8.pieces_ascii hnewline
    refine ⟨Utf8.pieces done ++ [.char '\n'], Utf8.pieces chunk, ?_, ?_⟩
    · rw [List.append_assoc, List.singleton_append, Utf8.pieces_append_ascii hascii,
        hhead, List.append_assoc]
      rfl
    · rw [List.flatMap_append, Utf8.flatMap_pieces]
      rfl
  fits := by
    have hempty : s.stdoutBuffer = [] := by
      rw [hs.buffer, Lines.rest_append, Lines.rest_line Lines.not_mem_rest]
      rfl
    rw [hempty, List.length_nil, Nat.zero_add]
    exact Nat.le_trans (length_textOf_le chunk) hchunk

theorem roomy_of_line_ends
    (hends : ∀ chunk ∈ chunks, chunk.length ≤ maxOutputBytes ∧ ∃ front, chunk = front ++ [10])
    (hdone : done = [] ∨ ∃ front, done = front ++ [10]) (hs : UpTo parse done s) :
    Roomy parse limit done s chunks := by
  induction chunks generalizing done s with
  | nil => trivial
  | cons chunk chunks ih =>
      obtain ⟨hlength, front, rfl⟩ := hends chunk List.mem_cons_self
      have hroom : Room done s (front ++ [10]) := by
        rcases hdone with rfl | ⟨before, rfl⟩
        · refine ⟨⟨[], _, rfl, rfl⟩, ?_⟩
          rw [hs.buffer]
          exact Nat.le_trans (Nat.le_of_eq (Nat.zero_add _))
            (Nat.le_trans (length_textOf_le _) hlength)
        · exact room_of_line_end hs hlength
      refine ⟨hroom, ih (fun chunk hchunk => hends chunk (List.mem_cons_of_mem _ hchunk)) (.inr ?_)
        (onData_upTo hroom hs)⟩
      exact ⟨done ++ front, (List.append_assoc done front [10]).symm⟩

/-! ## A full buffer -/

theorem textOf_spaces (n : Nat) (bytes : List UInt8) :
    textOf (List.replicate n 0x20 ++ bytes) = List.replicate n 0x20 ++ textOf bytes := by
  induction n with
  | zero => rfl
  | succ n ih =>
      have hspace : ' '.toNat < 0x80 := by decide
      have hhead : Utf8.lossy (0x20 :: (List.replicate n 0x20 ++ bytes)) =
          ' ' :: Utf8.lossy (List.replicate n 0x20 ++ bytes) :=
        Utf8.lossy_ascii hspace
      have hone : Js.codeUnits (String.ofList [' ']) = [0x20] := by decide
      rw [List.replicate_succ, List.replicate_succ, List.cons_append, textOf, hhead,
        codeUnits_cons, hone, ← textOf, ih]
      rfl

theorem message_spaces (n : Nat) : message parse (List.replicate n 0x20) = none := by
  have hblank : blank (List.replicate n 0x20) = true :=
    List.all_eq_true.mpr fun unit hunit => by rw [List.eq_of_mem_replicate hunit]; decide
  rw [message, if_pos hblank]

theorem newline_not_mem_spaces (n : Nat) : newline ∉ List.replicate n 0x20 := fun hmem =>
  absurd (List.eq_of_mem_replicate hmem) (by decide)

/-- Behind a pending line of spaces, the buffer keeps the line end and spaces up to the limit. -/
theorem appendBounded_spaces {n m : Nat} {tail : Text} (hn : n < maxOutputBytes)
    (hfull : maxOutputBytes ≤ n + 1 + m) :
    appendBounded (List.replicate n 0x20)
      (newline :: (List.replicate m 0x20 ++ tail)) maxOutputBytes =
      List.replicate n 0x20 ++ newline :: List.replicate (maxOutputBytes - (n + 1)) 0x20 := by
  have hroom : maxOutputBytes - n = maxOutputBytes - (n + 1) + 1 := by omega
  have hle : maxOutputBytes - (n + 1) ≤ m := by omega
  have hfront : (List.replicate n 0x20).take maxOutputBytes = List.replicate n 0x20 := by
    rw [List.take_replicate, Nat.min_eq_right (Nat.le_of_lt hn)]
  have hspaces : (List.replicate m 0x20 ++ tail).take (maxOutputBytes - (n + 1)) =
      List.replicate (maxOutputBytes - (n + 1)) 0x20 := by
    rw [List.take_append_of_le_length (by rwa [List.length_replicate]), List.take_replicate,
      Nat.min_eq_left hle]
  rw [appendBounded, List.length_replicate, if_neg (Nat.not_le.mpr hn), List.take_append,
    List.length_replicate, hfront, hroom, List.take_succ_cons, hspaces]

/-- A line that ends inside a chunk takes room from the line behind it. What does not fit is
lost, here a whole object behind two runs of spaces, although each line alone would fit. -/
theorem full_buffer_loses {rejects : List Record → Record → Bool} {n m : Nat} {line : List UInt8}
    {record : Record} (hn : n < maxOutputBytes) (hfull : maxOutputBytes ≤ n + 1 + m)
    (hfree : 10 ∉ line)
    (hline : message parse (textOf (List.replicate m 0x20 ++ line)) = some record) :
    jsonCalls parse rejects limit [List.replicate n 0x20,
      10 :: (List.replicate m 0x20 ++ line)] = [] ∧
      objectLines parse ([List.replicate n 0x20,
        10 :: (List.replicate m 0x20 ++ line)].flatten.splitOn 10) = [record] := by
  have hfirst : textOf (List.replicate n 0x20) = List.replicate n 0x20 := by
    have hnil := textOf_spaces n []
    rwa [List.append_nil, show textOf [] = [] from rfl, List.append_nil] at hnil
  constructor
  -- The spaces fill the buffer, so the line behind them has no room left.
  · have hsecond : textOf (10 :: (List.replicate m 0x20 ++ line)) =
        newline :: (List.replicate m 0x20 ++ textOf line) := by
      have hsplit := linewise_textOf.line [] (List.replicate m 0x20 ++ line)
      rwa [textOf_spaces] at hsplit
    have hfits : ([] : Text).length + (List.replicate n 0x20).length ≤ maxOutputBytes := by
      rw [List.length_replicate, List.length_nil]
      omega
    have hpending : onData parse limit ({} : State Record) (List.replicate n 0x20) =
        { (onData parse limit {} (List.replicate n 0x20)) with
          stdoutBuffer := List.replicate n 0x20, eventChain := [] } := by
      rw [onData_eq, hfirst, appendBounded_fits hfits, List.nil_append,
        Lines.rest_of_not_mem (newline_not_mem_spaces n),
        Lines.ended_of_not_mem (newline_not_mem_spaces n)]
      rfl
    have hend : (close parse (run parse limit ({} : State Record)
        [List.replicate n 0x20, 10 :: (List.replicate m 0x20 ++ line)])).eventChain = [] := by
      rw [close, consumeLine_eq, run, List.foldl_cons, List.foldl_cons, List.foldl_nil,
        onData_eq, hpending, hsecond, appendBounded_spaces hn hfull,
        Lines.rest_line (newline_not_mem_spaces n),
        Lines.rest_of_not_mem (newline_not_mem_spaces _),
        Lines.ended_line (newline_not_mem_spaces n),
        Lines.ended_of_not_mem (newline_not_mem_spaces _), List.filterMap_cons,
        message_spaces, message_spaces]
      rfl
    rw [jsonCalls, hend]
    rfl
  -- Read as a whole, the line of spaces is no message and the other line is one.
  · have hspaces : ∀ k, 10 ∉ List.replicate k (0x20 : UInt8) := fun k hmem =>
      absurd (List.eq_of_mem_replicate hmem) (by decide)
    have hlast : 10 ∉ List.replicate m 0x20 ++ line := fun hmem =>
      (List.mem_append.mp hmem).elim (hspaces m) hfree
    have hflatten : [List.replicate n 0x20, 10 :: (List.replicate m 0x20 ++ line)].flatten =
        List.replicate n 0x20 ++ 10 :: (List.replicate m 0x20 ++ line) := by
      rw [List.flatten_cons, List.flatten_cons, List.flatten_nil, List.append_nil]
    rw [hflatten, List.splitOn_append_cons_self_of_not_mem (hspaces n),
      List.splitOn_eq_singleton hlast, objectLines, List.filterMap_cons, hfirst, message_spaces,
      List.filterMap_cons, hline]
    rfl

/-- In a run whose chunks all have room, the calls follow the ended lines in every state, and in
the end the calls are the objects of the lines of the stream, in order. -/
theorem jsonCalls_exact {rejects : List Record → Record → Bool}
    (hnone : ∀ made record, rejects made record = false) (hroomy : Roomy parse limit [] {} chunks) :
    (∀ before, before <+: chunks → UpTo parse before.flatten (run parse limit {} before)) ∧
      jsonCalls parse rejects limit chunks = objectLines parse (chunks.flatten.splitOn 10) := by
  have hstart : UpTo parse [] ({} : State Record) := ⟨rfl, rfl⟩
  constructor
  · intro before hbefore
    exact run_upTo (hroomy.of_prefix hbefore) hstart
  · rw [jsonCalls, calls_of_none hnone, List.nil_append]
    exact close_eq (run_upTo hroomy hstart)

end

/-- `JSON.parse` on lines that are an object with one member `a`, a string without escapes. The
object stands for the string. -/
def parseMember (line : Text) : Option (Parsed Text) :=
  let opening := [0x7B, 0x22, 0x61, 0x22, 0x3A, 0x22]
  let closing := [0x22, 0x7D]
  let text := (line.drop opening.length).take (line.length - (opening ++ closing).length)
  if line = opening ++ text ++ closing ∧ ∀ unit ∈ text,
    0x20 ≤ unit ∧ unit ≠ 0x22 ∧ unit ≠ 0x5C then some (.object text)
  else none

/-- The lines `{"a":"é"}` and `{"a":"b"}`, which are cut behind the first line. -/
theorem jsonCalls_exact_sample :
    jsonCalls parseMember (fun _ _ => false) none
        [[0x7B, 0x22, 0x61, 0x22, 0x3A, 0x22, 0xC3, 0xA9, 0x22, 0x7D],
          [0x0A, 0x7B, 0x22, 0x61, 0x22, 0x3A, 0x22, 0x62, 0x22, 0x7D, 0x0A]] =
      [[0xE9], [0x62]] := by
  have hroomy : Roomy parseMember none [] {}
      [[0x7B, 0x22, 0x61, 0x22, 0x3A, 0x22, 0xC3, 0xA9, 0x22, 0x7D],
        [0x0A, 0x7B, 0x22, 0x61, 0x22, 0x3A, 0x22, 0x62, 0x22, 0x7D, 0x0A]] := by
    refine ⟨⟨⟨[], _, rfl, rfl⟩, by decide +kernel⟩,
      ⟨Utf8.cuts_ascii (by decide), by decide +kernel⟩, trivial⟩
  have hlines := (jsonCalls_exact (fun _ _ => rfl) hroomy).2
  rw [hlines]
  decide +kernel

/-- The line `{"a":"é"}`, cut inside `é`. -/
theorem cut_character_altered :
    let chunks : List (List UInt8) :=
      [[0x7B, 0x22, 0x61, 0x22, 0x3A, 0x22, 0xC3], [0xA9, 0x22, 0x7D, 0x0A]]
    (∀ line ∈ chunks.flatten.splitOn 10, line.length < 65536) ∧
      (∀ chunk ∈ chunks, chunk.length ≤ 65536) ∧
      jsonCalls parseMember (fun _ _ => false) none chunks = [[0xFFFD, 0xFFFD]] ∧
      objectLines parseMember (chunks.flatten.splitOn 10) = [[0xE9]] := by
  decide +kernel

end Pluton.AgentOutput
