-- SUMMARY: When a dump's body is passed on byte for byte.
import Pluton.RecoveryImport.Envelope

/-!
# Exactness of the replacement

The ends of the header and of the body are found in decoded text and counted in bytes of that
text encoded again. Both are exact where decoding loses nothing; where it does, a count is too
high, and the body is cut or taken too long.
-/
namespace Pluton.RecoveryImport

open Utf8

/-- Every ill-formed sequence is as long as what is shown for it. -/
def Whole (bytes : Bytes) : Prop := ∀ bad, Piece.ill bad ∈ pieces bytes → bad.length = 3

/-- The part of the body in the tail that is decoded. -/
def windowPart (header body footer : Bytes) : Bytes :=
  (header ++ body).drop
    (max (header.length + gained header) ((header ++ (body ++ footer)).length - windowSize))

/-- The body begins too late, and what was lost of it is made up: it occurs again so much
further on, and its end is counted too high by as much, or beyond the file's end. -/
def Repeated (header body footer : Bytes) : Prop :=
  0 < gained header ∧ gained header ≤ body.length ∧
    min (gained (windowPart header body footer)) footer.length = gained header ∧
    body <+: (body ++ footer).drop (gained header)

/-- There is no body, and the footer can be read from a later byte on. -/
def Vanished (key : List Char) (header body footer : Bytes) : Prop :=
  0 < gained header ∧ body = [] ∧ unrestricts key (lossy (footer.drop (gained header))) = true

section
variable {bytes header body footer : Bytes} {key : List Char} {newKey : String}

theorem gained_eq_zero : gained bytes = 0 ↔ Whole bytes := by
  rw [gained, List.sum_eq_zero_iff_forall_eq_nat]
  constructor
  · intro h bad hbad
    have hgain : 3 - bad.length = 0 := h _ (List.mem_map_of_mem hbad)
    have hlength := length_ill hbad
    omega
  · intro h gain hgain
    obtain ⟨piece, hpiece, rfl⟩ := List.mem_map.mp hgain
    cases piece with
    | char ch => rfl
    | ill bad => exact Nat.sub_eq_zero_of_le (Nat.le_of_eq (h bad hpiece).symm)

theorem IsHeader.ends {text : List Char} (h : IsHeader key text) :
    ∃ line, text = line ++ ['\n'] := by
  obtain ⟨-, blank, feed, -, hform, htext⟩ := h
  have hfeed : ∃ front, feed = front ++ ['\n'] := by
    rcases hform with rfl | rfl
    · exact ⟨[], rfl⟩
    · exact ⟨['\r'], rfl⟩
  obtain ⟨front, rfl⟩ := hfeed
  exact ⟨blank ++ ("\\restrict ".toList ++ key ++ front), by
    rw [htext]; simp only [List.append_assoc]⟩

theorem IsHeader.ends_bytes (h : IsHeader key (lossy header)) :
    ∃ line, header = line ++ [0x0A] := by
  obtain ⟨line, htext⟩ := h.ends
  obtain ⟨before, behind, hbytes, -, hbehind⟩ := lossy_split htext (by decide)
  rw [lossy_eq_nil.mp hbehind] at hbytes
  exact ⟨before, hbytes⟩

theorem IsHeader.lossy_append (h : IsHeader key (lossy header)) (more : Bytes) :
    lossy (header ++ more) = lossy header ++ lossy more := by
  obtain ⟨line, rfl⟩ := h.ends_bytes
  have hbreak : ('\n' : Char).toNat < 0x80 := by decide
  have hnewline : ∀ rest, lossy (0x0A :: rest) = '\n' :: lossy rest :=
    fun rest => lossy_ascii hbreak
  have hsmall : (0x0A : UInt8).toNat < 0x80 := by decide
  rw [List.append_assoc, List.singleton_append, lossy_append_ascii hsmall,
    lossy_append_ascii hsmall, hnewline, hnewline, List.append_assoc]
  rfl

theorem IsFooter.begins (h : IsFooter key (lossy footer)) : ∃ rest, footer = 0x0A :: rest := by
  obtain ⟨feed, rest, -, -, htext⟩ := h
  have hbreak : ('\n' : Char).toNat < 0x80 := by decide
  have hsplit : lossy footer = [] ++ '\n' :: ("\\unrestrict ".toList ++ key ++ feed ++ rest) :=
    htext
  obtain ⟨before, behind, hbytes, hbefore, -⟩ := lossy_split hsplit hbreak
  rw [lossy_eq_nil.mp hbefore] at hbytes
  exact ⟨behind, hbytes⟩

theorem IsFooter.append_lossy (h : IsFooter key (lossy footer)) (front : Bytes) :
    lossy (front ++ footer) = lossy front ++ lossy footer := by
  obtain ⟨rest, rfl⟩ := h.begins
  exact lossy_append_ascii (by decide)

end

/-! ## Runs -/

/-- A dump with an envelope. -/
structure Dump (key : List Char) (header body footer : Bytes) : Prop where
  begins : IsHeader key (lossy header)
  short : header.length < windowSize
  ends : IsFooter key (lossy footer)
  near : footer.length < windowSize

section
variable {header body footer : Bytes} {key : List Char} {newKey : String}

theorem Dump.footer_pos (h : Dump key header body footer) : 0 < footer.length := by
  obtain ⟨rest, rfl⟩ := h.ends.begins
  exact Nat.succ_pos _

/-- What the code does once the header is found. -/
theorem Dump.run (h : Dump key header body footer) :
    postgresRecoveryInput newKey (header ++ (body ++ footer)) =
    let file := header ++ (body ++ footer)
    let start := header.length + gained header
    let tailPosition := max start (file.length - windowSize)
    if tailPosition > file.length then .error .outOfRange
    else
      match footer? key (lossy (file.drop tailPosition)) with
      | none => .error .databaseImportFailed
      | some index => .ok (protectedInput newKey (readRange file start
          (tailPosition + (encode ((lossy (file.drop tailPosition)).take index)).length))) := by
  have hhead : (header ++ (body ++ footer)).take windowSize =
      header ++ (body ++ footer).take (windowSize - header.length) := by
    rw [List.take_append, List.take_of_length_le (Nat.le_of_lt h.short)]
  have henvelope : envelope? (lossy ((header ++ (body ++ footer)).take windowSize)) =
      some (key, lossy ((body ++ footer).take (windowSize - header.length))) := by
    rw [hhead, h.begins.lossy_append]
    exact envelope?_eq_some.mpr ⟨_, h.begins, rfl⟩
  have hstart : (lossy ((header ++ (body ++ footer)).take windowSize)).take
      ((lossy ((header ++ (body ++ footer)).take windowSize)).length -
        (lossy ((body ++ footer).take (windowSize - header.length))).length) = lossy header := by
    rw [hhead, h.begins.lossy_append, List.length_append, Nat.add_sub_cancel, List.take_left]
  dsimp only
  cases hfooter : footer? key (lossy ((header ++ (body ++ footer)).drop
      (max (header.length + gained header)
        ((header ++ (body ++ footer)).length - windowSize)))) with
  | none | some index =>
      simp only [postgresRecoveryInput, henvelope, hstart, length_encode_lossy, hfooter]

theorem Dump.length (_ : Dump key header body footer) :
    (header ++ (body ++ footer)).length = header.length + body.length + footer.length := by
  simp only [List.length_append, Nat.add_assoc]

theorem Dump.run_inside (h : Dump key header body footer) (hinside : gained header ≤ body.length) :
    postgresRecoveryInput newKey (header ++ (body ++ footer)) = .ok (protectedInput newKey
      (((body ++ footer).take (body.length + gained (windowPart header body footer))).drop
        (gained header))) := by
  have hlength := h.length
  have hnear := h.near
  rw [h.run]
  generalize htail : max (header.length + gained header)
    ((header ++ (body ++ footer)).length - windowSize) = tailPosition
  have hposition : tailPosition ≤ (header ++ body).length := by
    rw [List.length_append]
    omega
  have hpart : windowPart header body footer = (header ++ body).drop tailPosition := by
    rw [windowPart, htail]
  have hdrop : (header ++ (body ++ footer)).drop tailPosition =
      windowPart header body footer ++ footer := by
    rw [← List.append_assoc, List.drop_append_of_le_length hposition, hpart]
  have hpartLength : (windowPart header body footer).length =
      header.length + body.length - tailPosition := by
    rw [hpart, List.length_drop, List.length_append]
  have hstop : tailPosition + ((windowPart header body footer).length +
      gained (windowPart header body footer)) =
      header.length + (body.length + gained (windowPart header body footer)) := by
    rw [List.length_append] at hposition
    omega
  have hfits : ¬ tailPosition > (header ++ (body ++ footer)).length := by
    rw [hlength]
    rw [List.length_append] at hposition
    omega
  dsimp only
  rw [htail, if_neg hfits, hdrop, h.ends.append_lossy, footer?_append h.begins.1 h.ends]
  dsimp only
  rw [List.take_left, length_encode_lossy, hstop, readRange, List.take_length_add_append,
    List.drop_length_add_append]

theorem footer?_eq_some_zero {text : List Char} (h : unrestricts key text = true) :
    footer? key text = some 0 := by
  refine List.find?_range_eq_some.mpr ⟨Bool.or_eq_true_iff.mpr (.inl ?_),
    List.mem_range.mpr (Nat.succ_pos _), nofun⟩
  rw [h]
  rfl

/-- Where a footer is cut, only its first line can still be read, at the start. -/
theorem IsFooter.drop (h : IsFooter key (lossy footer)) (hkey : IsKey key) {count index : Nat}
    (hcount : 0 < count) (hmatch : footer? key (lossy (footer.drop count)) = some index) :
    index = 0 ∧ unrestricts key (lossy (footer.drop count)) = true := by
  rcases Bool.or_eq_true_iff.mp (List.find?_range_eq_some.mp hmatch).1 with hstart | hbreak
  · obtain ⟨hzero, hline⟩ := Bool.and_eq_true_iff.mp hstart
    exact ⟨beq_iff_eq.mp hzero, hline⟩
  · split at hbreak
    next line hline =>
      have hsplit : lossy (footer.drop count) =
          (lossy (footer.drop count)).take index ++ '\n' :: line := by
        rw [← hline, List.take_append_drop]
      obtain ⟨before, behind, hbytes, -, hbehind⟩ := lossy_split hsplit (by decide)
      have hfooter : footer = (footer.take count ++ before) ++ 0x0A :: behind := by
        rw [List.append_assoc]
        exact (List.take_append_drop count footer).symm.trans (congrArg _ hbytes)
      have hnewline : lossy (0x0A :: behind) = '\n' :: line :=
        (lossy_ascii (by decide : '\n'.toNat < 0x80)).trans (congrArg _ hbehind)
      have hsmall : (0x0A : UInt8).toNat < 0x80 := by decide
      have htext := congrArg lossy hfooter
      rw [lossy_append_ascii hsmall, hnewline] at htext
      -- the line would be one behind the footer's own
      have hline' : BlankEnd line := by
        obtain ⟨first, hfirst⟩ := h.begins
        obtain ⟨feed, rest, hform, hend, hown⟩ := h
        rw [hown] at htext
        cases hfront : lossy (footer.take count ++ before) with
        | nil =>
            have htake := (List.append_eq_nil_iff.mp (lossy_eq_nil.mp hfront)).1
            rw [hfirst, List.take_eq_nil_iff] at htake
            exact absurd (htake.resolve_right (List.cons_ne_nil _ _)) (Nat.ne_of_gt hcount)
        | cons newline part =>
            rw [hfront] at htext
            have hrest : "\\unrestrict ".toList ++ key ++ feed ++ rest = part ++ '\n' :: line :=
              (List.cons.inj htext).2
            have hown : unrestricts key (part ++ '\n' :: line) = true :=
              unrestricts_iff.mpr ⟨feed, rest, hform, hend, by
                rw [← hrest, List.append_assoc _ feed]⟩
            exact blankEnd_of_unrestricts hkey hown
      obtain ⟨feed, rest, -, -, hstart⟩ := unrestricts_iff.mp hbreak
      rw [hstart] at hline'
      exact absurd hline' not_blankEnd_backslash
    · cases hbreak

/-- The start is behind the body: nothing is passed on, if a footer is read there at all. -/
theorem Dump.run_behind (h : Dump key header body footer) (hbehind : body.length < gained header)
    {output : Bytes} :
    postgresRecoveryInput newKey (header ++ (body ++ footer)) = .ok output ↔
      output = protectedInput newKey [] ∧
      unrestricts key (lossy (footer.drop (gained header - body.length))) = true := by
  have hlength := h.length
  have hnear := h.near
  have htail :
      max (header.length + gained header) ((header ++ (body ++ footer)).length - windowSize) =
      header.length + gained header := by omega
  rw [h.run]
  dsimp only
  have hdrop : (header ++ (body ++ footer)).drop (header.length + gained header) =
      footer.drop (gained header - body.length) := by
    rw [List.drop_length_add_append, List.drop_append,
      List.drop_eq_nil_of_le (Nat.le_of_lt hbehind), List.nil_append]
  rw [htail, hdrop]
  by_cases hpast : header.length + gained header > (header ++ (body ++ footer)).length
  · rw [if_pos hpast]
    refine iff_of_false (by rintro ⟨⟩) fun hboth => ?_
    have hnil : footer.drop (gained header - body.length) = [] := List.drop_eq_nil_of_le (by omega)
    obtain ⟨feed, rest, -, -, htext⟩ := unrestricts_iff.mp hboth.2
    rw [hnil] at htext
    exact absurd (congrArg List.length htext) (by simp [lossy])
  · rw [if_neg hpast]
    cases hmatch : footer? key (lossy (footer.drop (gained header - body.length))) with
    | none =>
        refine iff_of_false (by rintro ⟨⟩) fun hboth => ?_
        rw [footer?_eq_some_zero hboth.2] at hmatch
        cases hmatch
    | some index =>
        obtain ⟨rfl, hline⟩ := h.ends.drop h.begins.1 (Nat.sub_pos_of_lt hbehind) hmatch
        have hread : readRange (header ++ (body ++ footer)) (header.length + gained header)
            (header.length + gained header +
              (encode ((lossy (footer.drop (gained header - body.length))).take 0)).length) = [] :=
          List.drop_eq_nil_of_le (List.length_take_le _ _)
        dsimp only
        rw [hread, Except.ok.injEq]
        exact ⟨fun heq => ⟨heq.symm, hline⟩, fun hboth => hboth.1.symm⟩

theorem shifted_eq {before behind : Nat} (hbefore : before ≤ body.length)
    (hfooter : 0 < footer.length) :
    ((body ++ footer).take (body.length + behind)).drop before = body ↔ before = 0 ∧ behind = 0 ∨
      0 < before ∧ min behind footer.length = before ∧ body <+: (body ++ footer).drop before := by
  rw [List.drop_take]
  generalize hrest : (body ++ footer).drop before = rest
  have hlength : rest.length = body.length + footer.length - before := by
    rw [← hrest, List.length_drop, List.length_append]
  constructor
  · intro heq
    have hprefix : body <+: rest := heq ▸ List.take_prefix _ _
    have hcount := congrArg List.length heq
    rw [List.length_take, hlength] at hcount
    rcases Nat.eq_zero_or_pos before with rfl | hpos
    · exact .inl ⟨rfl, by omega⟩
    · exact .inr ⟨hpos, by omega, hprefix⟩
  · rintro (⟨rfl, rfl⟩ | ⟨hpos, hmin, hprefix⟩)
    · rw [← hrest, List.drop_zero, Nat.add_zero, Nat.sub_zero, List.take_left]
    · have htake : rest.take body.length = body := (List.prefix_iff_eq_take.mp hprefix).symm
      by_cases hshort : behind ≤ footer.length
      · have hcount : body.length + behind - before = body.length := by omega
        rw [hcount, htake]
      · have hall : rest.length ≤ body.length + behind - before := by omega
        have hsame : rest.length ≤ body.length := by omega
        rw [List.take_of_length_le hall, ← htake, List.take_of_length_le hsame]

/-- The body is passed on exactly if no byte is gained, or by coincidence. -/
theorem Dump.exact_iff (h : Dump key header body footer) :
    postgresRecoveryInput newKey (header ++ (body ++ footer)) = .ok (protectedInput newKey body) ↔
      Whole header ∧ Whole (windowPart header body footer) ∨ Repeated header body footer ∨
      Vanished key header body footer := by
  have hinj : ∀ bytes, protectedInput newKey bytes = protectedInput newKey body ↔ bytes = body := by
    intro bytes
    unfold protectedInput
    rw [List.append_left_inj, List.append_right_inj]
  rw [← gained_eq_zero, ← gained_eq_zero, Repeated, Vanished]
  by_cases hinside : gained header ≤ body.length
  · rw [h.run_inside hinside, Except.ok.injEq, hinj, shifted_eq hinside h.footer_pos]
    constructor
    · rintro (haligned | ⟨hpos, hrepeated⟩)
      · exact .inl haligned
      · exact .inr (.inl ⟨hpos, hinside, hrepeated⟩)
    · rintro (haligned | ⟨hpos, -, hrepeated⟩ | ⟨hpos, rfl, -⟩)
      · exact .inl haligned
      · exact .inr ⟨hpos, hrepeated⟩
      · exact absurd hinside (Nat.not_le.mpr hpos)
  · have hbehind := Nat.lt_of_not_le hinside
    rw [h.run_behind hbehind]
    constructor
    · rintro ⟨hsame, hmatch⟩
      obtain rfl := (hinj []).mp hsame.symm
      exact .inr (.inr ⟨hbehind, rfl, hmatch⟩)
    · rintro (⟨hzero, -⟩ | ⟨-, hle, -⟩ | ⟨hpos, rfl, hmatch⟩)
      · rw [hzero] at hbehind
        exact absurd hbehind (Nat.not_lt_zero _)
      · exact absurd hle hinside
      · exact ⟨rfl, hmatch⟩

/-- Without a header in its first bytes, the file is passed on as it is. -/
theorem postgresRecoveryInput_plain {file : Bytes} (h : ∀ key header rest, file = header ++ rest →
    header.length ≤ windowSize → ¬ IsHeader key (lossy header)) :
    postgresRecoveryInput newKey file = .ok (protectedInput newKey file) := by
  unfold postgresRecoveryInput
  cases henvelope : envelope? (lossy (file.take windowSize)) with
  | none =>
      have hrange : readRange file 0 file.length = file := List.take_length
      simp only [henvelope, hrange]
  | some found =>
      obtain ⟨key, rest⟩ := found
      obtain ⟨text, hheader, htext⟩ := envelope?_eq_some.mp henvelope
      obtain ⟨line, rfl⟩ := hheader.ends
      rw [List.append_assoc, List.singleton_append] at htext
      obtain ⟨before, behind, hbytes, hbefore, -⟩ := lossy_split htext (by decide)
      have hlossy : lossy (before ++ [0x0A]) = line ++ ['\n'] := by
        rw [lossy_append_ascii (by decide), hbefore]
        rfl
      refine absurd hheader (hlossy ▸
        h key (before ++ [0x0A]) (behind ++ file.drop windowSize) ?_ ?_)
      · rw [List.append_assoc, List.singleton_append, ← List.cons_append, ← List.append_assoc]
        exact (List.take_append_drop windowSize file).symm.trans
          (congrArg (· ++ file.drop windowSize) hbytes)
      · have hlength := congrArg List.length hbytes
        have hshort := List.length_take_le windowSize file
        rw [List.length_append, List.length_cons] at hlength
        rw [List.length_append, List.length_singleton]
        omega

end

/-- A dump's body is passed on byte for byte exactly if neither the header nor the body's part
in the tail holds an ill-formed sequence that is shorter than what is shown for it, or if what
that costs is made up by coincidence. A file without a header is passed on as it is. -/
theorem postgresRecoveryInput_exact (newKey : String) :
    (∀ key header body footer, Dump key header body footer →
      (postgresRecoveryInput newKey (header ++ (body ++ footer)) =
        .ok (protectedInput newKey body) ↔
        Whole header ∧ Whole (windowPart header body footer) ∨ Repeated header body footer ∨
          Vanished key header body footer)) ∧
    ∀ file, (∀ key header rest, file = header ++ rest → header.length ≤ windowSize →
      ¬ IsHeader key (lossy header)) →
      postgresRecoveryInput newKey file = .ok (protectedInput newKey file) :=
  ⟨fun _ _ _ _ h => h.exact_iff, fun _ => postgresRecoveryInput_plain⟩

def sampleHeader : Bytes := bytesOf "-- dump\n\\restrict a\n"

def sampleFooter : Bytes := bytesOf "\n\\unrestrict a\n-- end"

theorem dump_sample (body : Bytes) : Dump ['a'] sampleHeader body sampleFooter := by
  have hkey : IsKey ['a'] := ⟨List.cons_ne_nil _ _, List.forall_iff_forall_mem.mp (by decide)⟩
  have hcomment : ∀ ch ∈ " dump".toList, isBreak ch = false :=
    List.forall_iff_forall_mem.mp (by decide)
  have hend : ∀ ch ∈ " end".toList, isBreak ch = false := List.forall_iff_forall_mem.mp (by decide)
  refine ⟨?_, by decide +kernel, ?_, by decide +kernel⟩
  · rw [sampleHeader, bytesOf, lossy_encode]
    exact ⟨hkey, _, ['\n'], .comment hcomment (lineFeed_eq_some.mpr (.inl rfl)) .nil, .inl rfl, rfl⟩
  · rw [sampleFooter, bytesOf, lossy_encode]
    exact ⟨['\n'], _, .inl rfl, ⟨[], .nil, .inr ⟨_, hend, rfl⟩⟩, rfl⟩

theorem postgresRecoveryInput_exact_sample :
    postgresRecoveryInput "b" (sampleHeader ++ (bytesOf "SELECT 1;" ++ sampleFooter)) =
        .ok (protectedInput "b" (bytesOf "SELECT 1;")) ∧
      postgresRecoveryInput "b" [0x78] = .ok (protectedInput "b" [0x78]) := by
  constructor
  · refine ((postgresRecoveryInput_exact "b").1 ['a'] _ _ _ (dump_sample _)).mpr (.inl ⟨?_, ?_⟩)
    · exact gained_eq_zero.mp (by decide +kernel)
    · exact gained_eq_zero.mp (by decide +kernel)
  · refine (postgresRecoveryInput_exact "b").2 [0x78] fun key header rest hfile _ hheader => ?_
    obtain ⟨line, rfl⟩ := hheader.ends_bytes
    have hmem : (0x0A : UInt8) ∈ [0x78] := by
      rw [hfile, List.append_assoc]
      exact List.mem_append_right _ List.mem_cons_self
    exact absurd hmem (by decide)

/-- A body of one LATIN1 byte is followed by two bytes of the footer. -/
theorem latin1_body_prolonged : Dump ['a'] sampleHeader [0xE9] sampleFooter ∧
    postgresRecoveryInput "b" (sampleHeader ++ ([0xE9] ++ sampleFooter)) =
      .ok (protectedInput "b" [0xE9, 0x0A, 0x5C]) ∧
    protectedInput "b" [0xE9, 0x0A, 0x5C] ≠ protectedInput "b" [0xE9] :=
  ⟨dump_sample _, by decide +kernel, by decide +kernel⟩

end Pluton.RecoveryImport
