-- SUMMARY: UTF-8 over lists: how encodings start, what they decode to, and byte order.
import Mathlib.Algebra.GroupWithZero.Nat
import Mathlib.Data.List.Infix
import Mathlib.Data.List.Lex

/-!
# UTF-8

The encoding of a text is the encodings of its characters, one after the other. It can be
read back from the front, so texts start with each other exactly if their encodings do.
-/
namespace Utf8

/-- The bytes of a character. -/
abbrev encodeChar (ch : Char) : List UInt8 := String.utf8EncodeChar ch

/-- The bytes of some characters. -/
def encode (chars : List Char) : List UInt8 := chars.flatMap encodeChar

/-- The bytes of a text. -/
def bytesOf (text : String) : List UInt8 := encode text.toList

variable {chars others : List Char} {ch other : Char} {bytes rest rest' : List UInt8}
  {text : String}

@[simp] theorem encode_nil : encode [] = [] := rfl

@[simp] theorem encode_cons : encode (ch :: chars) = encodeChar ch ++ encode chars :=
  List.flatMap_cons

@[simp] theorem encode_append : encode (chars ++ others) = encode chars ++ encode others :=
  List.flatMap_append

theorem bytesOf_append (text other : String) :
    bytesOf (text ++ other) = bytesOf text ++ bytesOf other := by
  rw [bytesOf, String.toList_append, encode_append]
  rfl

theorem decode_encodeChar (ch : Char) (rest : List UInt8) :
    ByteArray.utf8DecodeChar? (encodeChar ch ++ rest).toByteArray 0 = some ch := by
  rw [List.toByteArray_append]
  exact ByteArray.utf8DecodeChar?_utf8EncodeChar_append

theorem encodeChar_append_inj (h : encodeChar ch ++ rest = encodeChar other ++ rest') :
    ch = other ∧ rest = rest' := by
  have hfirst := decode_encodeChar ch rest
  rw [h, decode_encodeChar] at hfirst
  obtain rfl := Option.some.inj hfirst
  exact ⟨rfl, List.append_cancel_left h⟩

/-- A text is before another exactly if its bytes are. -/
theorem encode_prefix_iff : encode chars <+: encode others ↔ chars <+: others := by
  induction chars generalizing others with
  | nil => exact iff_of_true List.nil_prefix List.nil_prefix
  | cons ch chars ih =>
      cases others with
      | nil =>
          refine iff_of_false (fun h => ?_) (fun h => List.cons_ne_nil _ _ (List.prefix_nil.mp h))
          rw [encode_cons] at h
          exact String.utf8EncodeChar_ne_nil (List.append_eq_nil_iff.mp (List.prefix_nil.mp h)).1
      | cons other others =>
          rw [encode_cons, encode_cons, List.cons_prefix_cons]
          constructor
          · rintro ⟨rest, hrest⟩
            rw [List.append_assoc] at hrest
            obtain ⟨hsame, hmore⟩ := encodeChar_append_inj hrest
            exact ⟨hsame, ih.mp ⟨rest, hmore⟩⟩
          · rintro ⟨rfl, h⟩
            exact List.prefix_append_right_inj _ |>.mpr (ih.mpr h)

theorem encode_inj (h : encode chars = encode others) : chars = others :=
  (encode_prefix_iff.mp (h ▸ List.prefix_refl _)).eq_of_length_le
    (encode_prefix_iff.mp (h ▸ List.prefix_refl _)).length_le

/-! ## Reading back -/

theorem toByteArray_eq (text : String) : text.toByteArray = (bytesOf text).toByteArray := by
  rw [← String.utf8Encode_toList]
  rfl

theorem fromUTF8?_eq_some : String.fromUTF8? ⟨bytes.toArray⟩ = some text ↔
    bytes = bytesOf text := by
  have harray : (⟨bytes.toArray⟩ : ByteArray) = bytes.toByteArray := by
    rw [← List.data_toByteArray]
  rw [harray, String.fromUTF8?, ← List.toByteArray_inj, ← toByteArray_eq]
  split
  next hvalid =>
    rw [Option.some_inj, ← String.toByteArray_inj]
    rfl
  next hinvalid =>
    refine iff_of_false nofun fun heq => hinvalid ?_
    rw [heq]
    exact text.isValidUTF8

/-! ## ASCII -/

theorem encodeChar_ascii (h : ch.toNat < 0x80) : encodeChar ch = [UInt8.ofNat ch.toNat] := by
  have hle : ch.val.toNat ≤ 0x7f := Nat.le_of_lt_succ h
  rw [encodeChar, String.utf8EncodeChar]
  exact if_pos hle

theorem ascii_of_mem {b : UInt8} (hmem : b ∈ encodeChar ch) (hb : b.toNat < 0x80) :
    ch.toNat < 0x80 := by
  by_contra hch
  have hgt : ¬ ch.val.toNat ≤ 0x7f := fun hle => hch (Nat.lt_succ_of_le hle)
  have hhigh : ∀ n, n < 0x100 → 0x80 ≤ n → b ≠ UInt8.ofNat n := by
    rintro n hn hle rfl
    rw [UInt8.toNat_ofNat', Nat.mod_eq_of_lt hn] at hb
    omega
  rw [encodeChar, String.utf8EncodeChar] at hmem
  simp only [if_neg hgt] at hmem
  split at hmem
  · simp only [List.mem_cons, List.not_mem_nil, or_false] at hmem
    rcases hmem with h | h <;> exact hhigh _ (by omega) (by omega) h
  · split at hmem
    · simp only [List.mem_cons, List.not_mem_nil, or_false] at hmem
      rcases hmem with h | h | h <;> exact hhigh _ (by omega) (by omega) h
    · simp only [List.mem_cons, List.not_mem_nil, or_false] at hmem
      rcases hmem with h | h | h | h <;> exact hhigh _ (by omega) (by omega) h

theorem encode_ascii (h : ∀ ch ∈ chars, ch.toNat < 0x80) :
    encode chars = chars.map fun ch => UInt8.ofNat ch.toNat := by
  induction chars with
  | nil => rfl
  | cons ch chars ih =>
      rw [encode_cons, encodeChar_ascii (h ch List.mem_cons_self),
        ih fun x hx => h x (List.mem_cons_of_mem ch hx)]
      rfl

/-- An ASCII character is in a text exactly if its byte is among the text's. -/
theorem mem_encode_ascii (h : ch.toNat < 0x80) :
    UInt8.ofNat ch.toNat ∈ encode chars ↔ ch ∈ chars := by
  rw [encode, List.mem_flatMap]
  constructor
  · rintro ⟨x, hx, hmem⟩
    have hbyte : (UInt8.ofNat ch.toNat).toNat = ch.toNat := by
      rw [UInt8.toNat_ofNat', Nat.mod_eq_of_lt (Nat.lt_trans h (by decide))]
    have hascii := ascii_of_mem hmem (hbyte.symm ▸ h)
    rw [encodeChar_ascii hascii, List.mem_singleton] at hmem
    have hsame := congrArg UInt8.toNat hmem
    rw [hbyte, UInt8.toNat_ofNat', Nat.mod_eq_of_lt (Nat.lt_trans hascii (by decide))] at hsame
    exact Char.ext (UInt32.toNat_inj.mp hsame) ▸ hx
  · exact fun hmem => ⟨ch, hmem, by rw [encodeChar_ascii h]; exact List.mem_singleton_self _⟩

/-! ## The byte order mark -/

/-- The bytes start with the byte order mark. -/
def Marked (bytes : List UInt8) : Prop := [0xEF, 0xBB, 0xBF] <+: bytes

instance : Decidable (Marked bytes) := inferInstanceAs (Decidable (_ <+: _))

theorem marked_encode : Marked (encode chars) ↔ ['\uFEFF'] <+: chars := by
  have h : encode ['\uFEFF'] <+: encode chars ↔ ['\uFEFF'] <+: chars := encode_prefix_iff
  exact h

/-! ## The order of the bytes -/

/-- What is between a text's bytes with a last byte and those with the next one starts with
the former. -/
theorem prefix_iff_range {a b : UInt8} (hnext : ∀ c : UInt8, ¬ (a < c ∧ c < b)) (hlt : a < b) :
    bytes ++ [a] ≤ rest ∧ rest < bytes ++ [b] ↔ bytes ++ [a] <+: rest := by
  induction bytes generalizing rest with
  | nil =>
      cases rest with
      | nil => simp
      | cons c rest =>
          simp only [List.nil_append, List.cons_prefix_cons, List.nil_prefix, and_true,
            List.cons_lt_cons_iff, List.cons_le_cons_iff]
          constructor
          · rintro ⟨hlow | ⟨heq, -⟩, hhigh | ⟨-, hnil⟩⟩
            · exact absurd ⟨hlow, hhigh⟩ (hnext c)
            · exact absurd hnil (List.not_lt_nil _)
            · exact heq
            · exact heq
          · rintro rfl
            exact ⟨.inr ⟨rfl, List.nil_le _⟩, .inl hlt⟩
  | cons x bytes ih =>
      cases rest with
      | nil => simp
      | cons c rest =>
          simp only [List.cons_append, List.cons_prefix_cons, List.cons_lt_cons_iff,
            List.cons_le_cons_iff]
          constructor
          · rintro ⟨hlow | ⟨rfl, hlow⟩, hhigh | ⟨heq, hhigh⟩⟩
            · exact absurd (UInt8.lt_trans hlow hhigh) (UInt8.lt_irrefl _)
            · exact absurd (heq ▸ hlow) (UInt8.lt_irrefl _)
            · exact absurd hhigh (UInt8.lt_irrefl _)
            · exact ⟨rfl, ih.mp ⟨hlow, hhigh⟩⟩
          · rintro ⟨rfl, hrest⟩
            obtain ⟨hlow, hhigh⟩ := ih.mpr hrest
            exact ⟨.inr ⟨rfl, hlow⟩, .inr ⟨rfl, hhigh⟩⟩

end Utf8
