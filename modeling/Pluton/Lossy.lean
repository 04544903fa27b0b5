-- SUMMARY: UTF-8 decoding with replacement: the pieces of bytes, and where a text can be cut.
import Pluton.Utf8

/-!
# Decoding with replacement

Any bytes are a sequence of pieces: encoded characters, and ill-formed sequences, each as long
as a character's encoding could still begin with it. A decoder that does not fail shows each
ill-formed sequence as one U+FFFD. That character takes three bytes, so what is encoded again
can be longer than what was read, never shorter.
-/
namespace Utf8

/-! ## Pieces -/

/-- The ranges of the bytes between a lead byte and the last byte of its sequence. -/
def middle (lead : UInt8) : List (UInt8 × UInt8) :=
  if lead = 0xE0 then [(0xA0, 0xBF)]
  else if lead = 0xED then [(0x80, 0x9F)]
  else if 0xE1 ≤ lead ∧ lead ≤ 0xEF then [(0x80, 0xBF)]
  else if lead = 0xF0 then [(0x90, 0xBF), (0x80, 0xBF)]
  else if 0xF1 ≤ lead ∧ lead ≤ 0xF3 then [(0x80, 0xBF), (0x80, 0xBF)]
  else if lead = 0xF4 then [(0x80, 0x8F), (0x80, 0xBF)]
  else []

/-- How many bytes lie in the ranges, one after the other. -/
def fitting : List (UInt8 × UInt8) → List UInt8 → Nat
  | (low, high) :: ranges, byte :: bytes =>
    if low ≤ byte ∧ byte ≤ high then fitting ranges bytes + 1 else 0
  | _, _ => 0

/-- The length of the ill-formed sequence that the bytes begin with: the longest one that a
character's bytes could begin with, and a byte at least. -/
def illLength : List UInt8 → Nat
  | [] => 0
  | lead :: bytes => fitting (middle lead) bytes + 1

/-- The character that the bytes begin with. -/
def first? (bytes : List UInt8) : Option Char := ByteArray.utf8DecodeChar? bytes.toByteArray 0

inductive Piece where
  | char (ch : Char)
  | ill (bytes : List UInt8)

namespace Piece

def bytes : Piece → List UInt8
  | .char ch => encodeChar ch
  | .ill bytes => bytes

/-- What a decoder shows. -/
def shown : Piece → Char
  | .char ch => ch
  | .ill _ => '\uFFFD'

/-- By how many bytes the piece is shorter than what is shown. -/
def gain : Piece → Nat
  | .char _ => 0
  | .ill bytes => 3 - bytes.length

end Piece

/-- The pieces, as far as the fuel lasts. A piece takes a byte at least. -/
def piecesWith : Nat → List UInt8 → List Piece
  | 0, _ => []
  | _ + 1, [] => []
  | fuel + 1, bytes =>
    match first? bytes with
    | some ch => .char ch :: piecesWith fuel (bytes.drop ch.utf8Size)
    | none => .ill (bytes.take (illLength bytes)) :: piecesWith fuel (bytes.drop (illLength bytes))

def pieces (bytes : List UInt8) : List Piece := piecesWith bytes.length bytes

/-- `bytes.toString('utf8')` -/
def lossy (bytes : List UInt8) : List Char := (pieces bytes).map Piece.shown

/-- The bytes that are added when the decoded text is encoded again. -/
def gained (bytes : List UInt8) : Nat := ((pieces bytes).map Piece.gain).sum

section
variable {bytes rest : List UInt8} {ch : Char} {fuel : Nat} {x : UInt8}

theorem first?_eq_some : first? bytes = some ch ↔ encodeChar ch <+: bytes := by
  constructor
  · intro h
    obtain ⟨rest, hrest⟩ := ByteArray.exists_of_utf8DecodeChar?_eq_some h
    have hlists := congrArg (fun b => b.data.toList) hrest
    simp only [ByteArray.data_append, Array.toList_append, List.toList_data_toByteArray] at hlists
    exact ⟨rest.data.toList, hlists.symm⟩
  · rintro ⟨rest, rfl⟩
    exact decode_encodeChar ch rest

theorem fitting_le (ranges : List (UInt8 × UInt8)) (bytes : List UInt8) :
    fitting ranges bytes ≤ bytes.length ∧ fitting ranges bytes ≤ ranges.length := by
  induction ranges generalizing bytes with
  | nil => simp [fitting]
  | cons range ranges ih =>
      cases bytes with
      | nil => simp [fitting]
      | cons byte bytes =>
          rw [fitting]
          split
          · have := ih bytes
            simp only [List.length_cons]
            omega
          · simp

theorem length_middle (lead : UInt8) : (middle lead).length ≤ 2 := by
  unfold middle
  repeat' split
  all_goals decide

theorem illLength_bounds (hne : bytes ≠ []) :
    0 < illLength bytes ∧ illLength bytes ≤ bytes.length ∧ illLength bytes ≤ 3 := by
  obtain ⟨lead, rest, rfl⟩ := List.exists_cons_of_ne_nil hne
  have hfit := fitting_le (middle lead) rest
  have hmiddle := length_middle lead
  rw [illLength, List.length_cons]
  omega

/-! ## One piece after the other -/

theorem first?_size (h : first? bytes = some ch) :
    0 < ch.utf8Size ∧ ch.utf8Size ≤ bytes.length := by
  have hle := (first?_eq_some.mp h).length_le
  rw [String.length_utf8EncodeChar] at hle
  exact ⟨ch.utf8Size_pos, hle⟩

theorem piecesWith_congr {fuel' : Nat} (h : bytes.length ≤ fuel) (h' : bytes.length ≤ fuel') :
    piecesWith fuel bytes = piecesWith fuel' bytes := by
  induction fuel generalizing bytes fuel' with
  | zero =>
      obtain rfl := List.eq_nil_of_length_eq_zero (Nat.le_zero.mp h)
      cases fuel' <;> rfl
  | succ fuel ih =>
      cases bytes with
      | nil => cases fuel' <;> rfl
      | cons x bytes =>
          cases fuel' with
          | zero => cases h'
          | succ fuel' =>
              rw [piecesWith, piecesWith]
              · cases hfirst : first? (x :: bytes) with
                | some ch =>
                    have hsize := first?_size hfirst
                    have hrest : ((x :: bytes).drop ch.utf8Size).length ≤
                        (x :: bytes).length - 1 := by
                      rw [List.length_drop]
                      omega
                    exact congrArg _ (ih (by omega) (by omega))
                | none =>
                    have hsize := illLength_bounds (List.cons_ne_nil x bytes)
                    have hrest : ((x :: bytes).drop (illLength (x :: bytes))).length ≤
                        (x :: bytes).length - 1 := by
                      rw [List.length_drop]
                      omega
                    exact congrArg _ (ih (by omega) (by omega))
              · exact List.cons_ne_nil x bytes
              · exact List.cons_ne_nil x bytes

@[simp] theorem pieces_nil : pieces [] = [] := rfl

theorem pieces_cons (hne : bytes ≠ []) : pieces bytes =
    match first? bytes with
    | some ch => .char ch :: pieces (bytes.drop ch.utf8Size)
    | none => .ill (bytes.take (illLength bytes)) :: pieces (bytes.drop (illLength bytes)) := by
  obtain ⟨x, tail, rfl⟩ := List.exists_cons_of_ne_nil hne
  rw [pieces, List.length_cons, piecesWith]
  · cases hfirst : first? (x :: tail) with
    | some ch =>
        have hsize := first?_size hfirst
        rw [List.length_cons] at hsize
        exact congrArg _ (piecesWith_congr
          (by rw [List.length_drop, List.length_cons]; omega) (Nat.le_refl _))
    | none =>
        have hsize := illLength_bounds (List.cons_ne_nil x tail)
        exact congrArg _ (piecesWith_congr
          (by rw [List.length_drop, List.length_cons]; omega) (Nat.le_refl _))
  · exact List.cons_ne_nil x tail

theorem pieces_encodeChar (ch : Char) (rest : List UInt8) :
    pieces (encodeChar ch ++ rest) = .char ch :: pieces rest := by
  have hne : encodeChar ch ++ rest ≠ [] := fun h =>
    String.utf8EncodeChar_ne_nil (List.append_eq_nil_iff.mp h).1
  rw [pieces_cons hne, first?_eq_some.mpr (List.prefix_append _ _)]
  dsimp only
  rw [← String.length_utf8EncodeChar, List.drop_left]

theorem pieces_ill (hne : bytes ≠ []) (h : first? bytes = none) :
    pieces bytes = .ill (bytes.take (illLength bytes)) ::
      pieces (bytes.drop (illLength bytes)) := by
  rw [pieces_cons hne, h]

/-- Bytes are empty, begin with a character, or begin with an ill-formed sequence. -/
theorem pieces_induction {motive : List UInt8 → Prop} (nil : motive [])
    (char : ∀ ch rest, motive rest → motive (encodeChar ch ++ rest))
    (ill : ∀ bytes, bytes ≠ [] → first? bytes = none →
      motive (bytes.drop (illLength bytes)) → motive bytes)
    (bytes : List UInt8) : motive bytes := by
  induction hlength : bytes.length using Nat.strongRecOn generalizing bytes with
  | ind n ih =>
      by_cases hne : bytes = []
      · exact hne ▸ nil
      · cases hfirst : first? bytes with
        | some ch =>
            obtain ⟨rest, rfl⟩ := first?_eq_some.mp hfirst
            have hpos : 0 < (encodeChar ch).length :=
              List.length_pos_iff.mpr String.utf8EncodeChar_ne_nil
            refine char ch rest (ih rest.length ?_ rest rfl)
            rw [← hlength, List.length_append]
            omega
        | none =>
            have hbounds := illLength_bounds hne
            refine ill bytes hne hfirst (ih _ ?_ _ rfl)
            rw [List.length_drop, ← hlength]
            omega

theorem flatMap_pieces (bytes : List UInt8) : (pieces bytes).flatMap Piece.bytes = bytes := by
  induction bytes using pieces_induction with
  | nil => rfl
  | char ch rest ih => rw [pieces_encodeChar, List.flatMap_cons, ih]; rfl
  | ill bytes hne hfirst ih =>
      rw [pieces_ill hne hfirst, List.flatMap_cons, ih]
      exact List.take_append_drop _ _

theorem length_ill {bad : List UInt8} (h : Piece.ill bad ∈ pieces bytes) : bad.length ≤ 3 := by
  induction bytes using pieces_induction with
  | nil => cases h
  | char ch rest ih =>
      rw [pieces_encodeChar, List.mem_cons] at h
      exact ih (h.resolve_left nofun)
  | ill bytes hne hfirst ih =>
      rw [pieces_ill hne hfirst, List.mem_cons] at h
      rcases h with h | h
      · obtain rfl := Piece.ill.inj h
        exact Nat.le_trans (List.length_take_le _ _) (illLength_bounds hne).2.2
      · exact ih h

/-- What is shown takes the bytes that were read and those that are gained. -/
theorem length_encode_lossy (bytes : List UInt8) :
    (encode (lossy bytes)).length = bytes.length + gained bytes := by
  unfold lossy gained
  induction bytes using pieces_induction with
  | nil => rfl
  | char ch rest ih =>
      rw [pieces_encodeChar, List.map_cons, List.map_cons, List.sum_cons, encode_cons,
        List.length_append, List.length_append, ih]
      simp only [Piece.shown, Piece.gain]
      omega
  | ill bytes hne hfirst ih =>
      have hbounds := illLength_bounds hne
      have hshown : (encodeChar '\uFFFD').length = 3 := rfl
      rw [pieces_ill hne hfirst, List.map_cons, List.map_cons, List.sum_cons, encode_cons,
        List.length_append, ih]
      simp only [Piece.shown, Piece.gain, hshown, List.length_take, List.length_drop]
      omega

theorem pieces_encode (chars : List Char) : pieces (encode chars) = chars.map Piece.char := by
  induction chars with
  | nil => rfl
  | cons ch chars ih => rw [encode_cons, pieces_encodeChar, ih, List.map_cons]

theorem lossy_encode (chars : List Char) : lossy (encode chars) = chars := by
  rw [lossy, pieces_encode, List.map_map]
  exact List.map_id' _

/-! ## Cuts -/

/-- No piece lies across the cut. -/
def Cuts (bytes rest : List UInt8) : Prop :=
  ∃ front back, pieces (bytes ++ rest) = front ++ back ∧ front.flatMap Piece.bytes = bytes

theorem fitting_append {ranges : List (UInt8 × UInt8)}
    (h : fitting ranges (bytes ++ rest) ≤ bytes.length) :
    fitting ranges bytes = fitting ranges (bytes ++ rest) := by
  induction ranges generalizing bytes with
  | nil => simp only [fitting]
  | cons range ranges ih =>
      cases bytes with
      | nil => exact (Nat.le_zero.mp h).symm
      | cons byte bytes =>
          rw [List.cons_append, fitting, fitting]
          rw [List.cons_append, fitting] at h
          by_cases hfits : range.1 ≤ byte ∧ byte ≤ range.2
          · rw [if_pos hfits] at h
            rw [if_pos hfits, if_pos hfits, ih (Nat.le_of_succ_le_succ h)]
          · rw [if_neg hfits, if_neg hfits]

theorem illLength_append (hne : bytes ≠ []) (h : illLength (bytes ++ rest) ≤ bytes.length) :
    illLength bytes = illLength (bytes ++ rest) := by
  obtain ⟨lead, tail, rfl⟩ := List.exists_cons_of_ne_nil hne
  exact congrArg (· + 1) (fitting_append (Nat.le_of_succ_le_succ h))

/-- An ill-formed sequence that ends in front of the cut is one without what is behind it. -/
theorem pieces_ill_append (hne : bytes ≠ []) (h : first? (bytes ++ rest) = none)
    (hlength : illLength (bytes ++ rest) ≤ bytes.length) :
    pieces bytes = .ill (bytes.take (illLength (bytes ++ rest))) ::
      pieces (bytes.drop (illLength (bytes ++ rest))) ∧
      pieces (bytes ++ rest) =
        .ill (bytes.take (illLength (bytes ++ rest))) ::
          pieces (bytes.drop (illLength (bytes ++ rest)) ++ rest) := by
  have hfirst : first? bytes = none := by
    rw [Option.eq_none_iff_forall_ne_some] at h ⊢
    exact fun ch hch =>
      h ch (first?_eq_some.mpr ((first?_eq_some.mp hch).trans (List.prefix_append _ _)))
  constructor
  · rw [pieces_ill hne hfirst, illLength_append hne hlength]
  · have hne' : bytes ++ rest ≠ [] := fun hnil => hne (List.append_eq_nil_iff.mp hnil).1
    rw [pieces_ill hne' h, List.take_append_of_le_length hlength,
      List.drop_append_of_le_length hlength]

/-- Bytes that are cut between two pieces are read part by part. -/
theorem pieces_of_cut {front back : List Piece} (hpieces : pieces (bytes ++ rest) = front ++ back)
    (hfront : front.flatMap Piece.bytes = bytes) : pieces bytes = front ∧ pieces rest = back := by
  induction front generalizing bytes with
  | nil =>
      obtain rfl : [] = bytes := hfront
      exact ⟨rfl, hpieces⟩
  | cons piece front ih =>
      rw [List.flatMap_cons] at hfront
      subst hfront
      generalize hmore : front.flatMap Piece.bytes = more at hpieces ⊢
      cases piece with
      | char ch =>
          rw [List.append_assoc, List.cons_append] at hpieces
          have hrest := (List.cons.inj ((pieces_encodeChar ch (more ++ rest)).symm.trans hpieces)).2
          obtain ⟨hmore', hback⟩ := ih hrest hmore
          exact ⟨(pieces_encodeChar ch more).trans (congrArg _ hmore'), hback⟩
      | ill bytes =>
          dsimp only [Piece.bytes] at hpieces ⊢
          have hne : bytes ++ more ++ rest ≠ [] := fun hnil => by
            have hnone : pieces (bytes ++ more ++ rest) = [] := by rw [hnil]; rfl
            exact List.cons_ne_nil _ _ (hpieces.symm.trans hnone)
          cases hfirst : first? (bytes ++ more ++ rest) with
          | some ch =>
              rw [pieces_cons hne, hfirst, List.cons_append] at hpieces
              cases (List.cons.inj hpieces).1
          | none =>
              have hlength : illLength (bytes ++ more ++ rest) = bytes.length := by
                rw [pieces_ill hne hfirst, List.cons_append] at hpieces
                have hhead := congrArg List.length (Piece.ill.inj (List.cons.inj hpieces).1)
                rw [List.length_take_of_le (illLength_bounds hne).2.1] at hhead
                exact hhead
              have hpos := (illLength_bounds hne).1
              have hne' : bytes ++ more ≠ [] := fun hnil => by
                rw [hlength, (List.append_eq_nil_iff.mp hnil).1] at hpos
                exact absurd hpos (Nat.lt_irrefl 0)
              have hle : illLength (bytes ++ more ++ rest) ≤ (bytes ++ more).length := by
                rw [hlength, List.length_append]
                exact Nat.le_add_right _ _
              obtain ⟨hwhole, hall⟩ := pieces_ill_append hne' hfirst hle
              rw [hlength, List.take_left, List.drop_left] at hwhole hall
              rw [hall, List.cons_append] at hpieces
              obtain ⟨hmore', hback⟩ := ih (List.cons.inj hpieces).2 hmore
              exact ⟨hwhole.trans (congrArg _ hmore'), hback⟩

theorem Cuts.pieces (h : Cuts bytes rest) :
    pieces (bytes ++ rest) = pieces bytes ++ pieces rest := by
  obtain ⟨front, back, hpieces, hfront⟩ := h
  obtain ⟨rfl, rfl⟩ := pieces_of_cut hpieces hfront
  exact hpieces

theorem Cuts.lossy (h : Cuts bytes rest) : lossy (bytes ++ rest) = lossy bytes ++ lossy rest := by
  rw [Utf8.lossy, h.pieces, List.map_append]
  rfl

theorem low_middle (lead : UInt8) : ∀ range ∈ middle lead, 0x80 ≤ range.1.toNat := by
  unfold middle
  repeat' split
  all_goals exact List.forall_iff_forall_mem.mp (by decide)

theorem fitting_ascii {ranges : List (UInt8 × UInt8)}
    (hranges : ∀ range ∈ ranges, 0x80 ≤ range.1.toNat) (hx : x.toNat < 0x80) :
    fitting ranges (bytes ++ x :: rest) ≤ bytes.length := by
  induction ranges generalizing bytes with
  | nil => simp only [fitting, Nat.zero_le]
  | cons range ranges ih =>
      cases bytes with
      | nil =>
          have hlow : ¬ (range.1 ≤ x ∧ x ≤ range.2) := fun h =>
            absurd (UInt8.le_iff_toNat_le.mp h.1)
              (Nat.not_le.mpr (Nat.lt_of_lt_of_le hx (hranges range List.mem_cons_self)))
          rw [List.nil_append, fitting, if_neg hlow]
          exact Nat.le_refl _
      | cons byte bytes =>
          rw [List.cons_append, fitting]
          split
          · exact Nat.succ_le_succ (ih fun r hr => hranges r (List.mem_cons_of_mem range hr))
          · exact Nat.zero_le _

/-- An ASCII byte is not in a longer sequence. -/
theorem not_ascii_inside {tail : List UInt8} (hne : bytes ≠ []) (hfirst : first? bytes = none)
    (hx : x.toNat < 0x80) (htail : bytes ++ tail = encodeChar ch)
    (hstart : encodeChar ch <+: bytes ++ x :: rest) : False := by
  cases tail with
  | nil =>
      have hin : encodeChar ch <+: bytes :=
        ⟨[], by rw [← htail, List.append_nil]; exact List.append_nil _⟩
      rw [first?_eq_some.mpr hin] at hfirst
      cases hfirst
  | cons y tail =>
      rw [← htail, List.prefix_append_right_inj, List.cons_prefix_cons] at hstart
      obtain ⟨rfl, -⟩ := hstart
      have hmem : y ∈ encodeChar ch := htail ▸ List.mem_append_right _ List.mem_cons_self
      have hlength := congrArg List.length htail
      rw [encodeChar_ascii (ascii_of_mem hmem hx), List.length_append, List.length_cons,
        List.length_singleton] at hlength
      have hpos := List.length_pos_iff.mpr hne
      omega

/-- An ASCII byte ends every piece in front of it. -/
theorem pieces_append_ascii (hx : x.toNat < 0x80) :
    pieces (bytes ++ x :: rest) = pieces bytes ++ pieces (x :: rest) := by
  induction bytes using pieces_induction with
  | nil => rfl
  | char ch more ih =>
      rw [List.append_assoc, pieces_encodeChar, pieces_encodeChar, ih, List.cons_append]
  | ill bytes hne hfirst ih =>
      have hnone : first? (bytes ++ x :: rest) = none := by
        rw [Option.eq_none_iff_forall_ne_some]
        intro ch hch
        have hstart := first?_eq_some.mp hch
        rcases List.prefix_or_prefix_of_prefix hstart (List.prefix_append bytes (x :: rest))
          with hin | ⟨tail, htail⟩
        · rw [first?_eq_some.mpr hin] at hfirst
          cases hfirst
        · exact not_ascii_inside hne hfirst hx htail hstart
      have hlength : illLength (bytes ++ x :: rest) ≤ bytes.length := by
        obtain ⟨lead, tail, rfl⟩ := List.exists_cons_of_ne_nil hne
        exact Nat.succ_le_succ (fitting_ascii (low_middle lead) hx)
      obtain ⟨hpieces, hall⟩ := pieces_ill_append hne hnone hlength
      have hsame : illLength bytes = illLength (bytes ++ x :: rest) :=
        (illLength_append hne hlength)
      rw [hsame] at ih
      rw [hall, ih, hpieces, List.cons_append]

theorem cuts_ascii (hx : x.toNat < 0x80) : Cuts bytes (x :: rest) :=
  ⟨pieces bytes, pieces (x :: rest), pieces_append_ascii hx, flatMap_pieces bytes⟩

theorem lossy_append_ascii (hx : x.toNat < 0x80) :
    lossy (bytes ++ x :: rest) = lossy bytes ++ lossy (x :: rest) :=
  (cuts_ascii hx).lossy

theorem pieces_ascii (hch : ch.toNat < 0x80) :
    pieces (UInt8.ofNat ch.toNat :: rest) = .char ch :: pieces rest := by
  rw [← pieces_encodeChar, encodeChar_ascii hch]
  rfl

theorem lossy_ascii (hch : ch.toNat < 0x80) :
    lossy (UInt8.ofNat ch.toNat :: rest) = ch :: lossy rest := by
  rw [lossy, pieces_ascii hch, List.map_cons]
  rfl

/-- An ASCII character that is shown was read from its byte, and the text falls apart there. -/
theorem lossy_split {front back : List Char} (h : lossy bytes = front ++ ch :: back)
    (hch : ch.toNat < 0x80) :
    ∃ before behind, bytes = before ++ UInt8.ofNat ch.toNat :: behind ∧
      lossy before = front ∧ lossy behind = back := by
  obtain ⟨first, tail, hpieces, hfront, hmap⟩ := List.map_eq_append_iff.mp h
  obtain ⟨piece, second, rfl, hpiece, hback⟩ := List.map_eq_cons_iff.mp hmap
  cases piece with
  | ill bad =>
      obtain rfl : '\uFFFD' = ch := hpiece
      exact absurd hch (by decide)
  | char c =>
      obtain rfl : c = ch := hpiece
      have hbytes := flatMap_pieces bytes
      rw [hpieces, List.flatMap_append, List.flatMap_cons] at hbytes
      obtain ⟨hfirst, hsecond⟩ := pieces_of_cut (hbytes.symm ▸ hpieces) rfl
      have hbyte : Piece.bytes (.char c) = [UInt8.ofNat c.toNat] := encodeChar_ascii hch
      refine ⟨first.flatMap Piece.bytes, second.flatMap Piece.bytes, ?_, ?_, ?_⟩
      · rw [← hbytes, hbyte, List.singleton_append]
      · rw [lossy, hfirst, hfront]
      · rw [hbyte, List.singleton_append, pieces_ascii hch] at hsecond
        rw [lossy, (List.cons.inj hsecond).2, hback]

theorem lossy_eq_nil : lossy bytes = [] ↔ bytes = [] := by
  constructor
  · intro h
    have hbytes := flatMap_pieces bytes
    rw [List.map_eq_nil_iff.mp h] at hbytes
    exact hbytes.symm
  · rintro rfl
    rfl

end

end Utf8
