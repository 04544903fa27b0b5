-- SUMMARY: Texts and decimals are decoded without loss: which bytes `text` and `field` accept.
import Mathlib.Data.List.Induction
import Mathlib.Data.List.TakeWhile
import Pluton.Utf8
import Pluton.Tar.Field

/-!
# Decoded texts

The decoder drops a byte order mark at the start of what it is given. Of all other bytes
it accepts those of a text, which are the bytes that the text is encoded to.
-/
namespace Pluton.Tar

open Utf8

/-! ## Texts -/

section
variable {bytes : Bytes} {value : String}

theorem text_eq_ok : text bytes = .ok value ↔ Js.decodeFatal bytes = some value := by
  unfold text
  cases Js.decodeFatal bytes with
  | none => exact iff_of_false nofun nofun
  | some decoded =>
      exact ⟨fun h => congrArg some (Except.ok.inj h),
        fun h => congrArg Except.ok (Option.some.inj h)⟩

/-- Without a mark, the accepted bytes are the text's. -/
theorem text_unmarked (h : ¬ Marked bytes) : text bytes = .ok value ↔ bytes = bytesOf value := by
  rw [text_eq_ok, Js.decodeFatal, if_neg (mt List.isPrefixOf_iff_prefix.mp h)]
  exact fromUTF8?_eq_some

/-- The bytes of any text are accepted, and a mark is all that can be lost. -/
theorem text_bytesOf (value : String) :
    ∃ decoded, text (bytesOf value) = .ok decoded ∧ decoded.toList <:+ value.toList := by
  by_cases hmarked : Marked (bytesOf value)
  · obtain ⟨rest, hrest⟩ := marked_encode.mp hmarked
    refine ⟨String.ofList rest, text_eq_ok.mpr ?_, ?_⟩
    · rw [Js.decodeFatal, if_pos (List.isPrefixOf_iff_prefix.mpr hmarked)]
      apply fromUTF8?_eq_some.mpr
      rw [bytesOf, bytesOf, ← hrest, encode_append, String.toList_ofList]
      rfl
    · rw [String.toList_ofList, ← hrest]
      exact List.suffix_append _ _
  · exact ⟨value, (text_unmarked hmarked).mpr rfl, List.suffix_refl _⟩

theorem text_ascii (h : ∀ ch ∈ value.toList, ch.toNat < 0x80) :
    text (bytesOf value) = .ok value := by
  refine (text_unmarked fun hmarked => ?_).mpr rfl
  have hmem : '\uFEFF' ∈ value.toList :=
    (marked_encode.mp hmarked).subset (List.mem_singleton_self _)
  exact absurd (h _ hmem) (by decide)

theorem bytesOf_inj {other : String} (h : bytesOf value = bytesOf other) : value = other :=
  String.toList_inj.mp (encode_inj h)

/-! ## Fields -/

/-- The bytes of a field in front of its first zero. -/
def cut (bytes : Bytes) : Bytes := bytes.takeWhile (· != 0)

/-- A field that is accepted holds its text, and zeros only behind it. -/
theorem field_eq_ok (h : field bytes = .ok value) :
    bytes = cut bytes ++ List.replicate (bytes.length - (cut bytes).length) 0 ∧
    text (cut bytes) = .ok value := by
  unfold field at h
  split at h
  · cases h
  next hzeros =>
    refine ⟨?_, h⟩
    have hall : ∀ byte ∈ bytes.dropWhile (· != 0), byte = 0 := by
      intro byte hbyte
      by_contra hne
      exact hzeros (List.any_eq_true.mpr ⟨byte, hbyte, bne_iff_ne.mpr hne⟩)
    have hparts : cut bytes ++ bytes.dropWhile (· != 0) = bytes := List.takeWhile_append_dropWhile
    have hlength : bytes.length - (cut bytes).length = (bytes.dropWhile (· != 0)).length := by
      have := congrArg List.length hparts
      rw [List.length_append] at this
      omega
    rw [hlength, ← List.eq_replicate_of_mem hall]
    exact hparts.symm

/-- A field's text is what stands between the field's bounds. -/
theorem field_unmarked (h : field bytes = .ok value) (hmark : ¬ Marked bytes) :
    cut bytes = bytesOf value ∧
    bytes = bytesOf value ++ List.replicate (bytes.length - (bytesOf value).length) 0 := by
  obtain ⟨hbytes, htext⟩ := field_eq_ok h
  have hcut : ¬ Marked (cut bytes) := fun hcut => hmark (hcut.trans (List.takeWhile_prefix _))
  have heq := (text_unmarked hcut).mp htext
  exact ⟨heq, by rw [← heq]; exact hbytes⟩

end

/-! ## Decimals -/

section
variable {digits : List Char} {n : Nat}

theorem digitsValue_ten (digits : List Char) :
    digitsValue 10 digits = Nat.ofDigitChars 10 digits 0 := by
  rw [digitsValue, Nat.ofDigitChars_eq_foldl]
  congr 1
  funext value ch
  rw [Nat.mul_comm]

theorem digitsValue_toString (n : Nat) : digitsValue 10 (toString n).toList = n := by
  rw [digitsValue_ten, Nat.toString_eq_ofList_toDigits, String.toList_ofList,
    Nat.ofDigitChars_ten_toDigits]

theorem isDigit_toDigits {ch : Char} (h : ch ∈ Nat.toDigits 10 n) : isDigit ch = true := by
  have hdigit := Nat.isDigit_of_mem_toDigits (by decide) (by decide) h
  simpa [isDigit, Char.isDigit, Char.le_def] using hdigit

/-- The decimal of a positive number does not begin with a zero. -/
theorem head_toDigits (h : 0 < n) : ((Nat.toDigits 10 n).head?.any (· != '0')) = true := by
  induction n using Nat.strongRecOn with
  | ind n ih =>
      rw [Nat.toDigits_eq_if (by decide)]
      split
      next hsmall =>
        have hdigits : ∀ k < 10, 0 < k → ([k.digitChar].head?.any (· != '0')) = true := by decide
        exact hdigits n hsmall h
      next hlarge =>
        have hless : n / 10 < n := Nat.div_lt_self h (by decide)
        have hpos : 0 < n / 10 := Nat.div_pos (Nat.le_of_not_lt hlarge) (by decide)
        have hfront := ih (n / 10) hless hpos
        rw [List.head?_append_of_ne_nil _ Nat.toDigits_ne_nil]
        exact hfront

theorem digitChar_of_isDigit {ch : Char} (h : isDigit ch = true) :
    ch.toNat - '0'.toNat < 10 ∧ (ch.toNat - '0'.toNat).digitChar = ch := by
  simp only [isDigit, Bool.and_eq_true, decide_eq_true_eq, Char.le_def, UInt32.le_iff_toNat_le] at h
  obtain ⟨hlow, hhigh⟩ := h
  have hlow : 48 ≤ ch.toNat := hlow
  have hhigh : ch.toNat ≤ 57 := hhigh
  have hall : ∀ k < 10, (Nat.digitChar k).toNat = 48 + k := by decide
  have hvalue : ch.toNat - '0'.toNat = ch.toNat - 48 := rfl
  have hless : ch.toNat - 48 < 10 := by omega
  refine ⟨hless, Char.ext (UInt32.toNat_inj.mp ?_)⟩
  have hsame : (ch.toNat - 48).digitChar.toNat = ch.toNat := by
    rw [hall _ hless]
    omega
  exact hsame

theorem digitsValue_append (digits : List Char) (ch : Char) :
    digitsValue 10 (digits ++ [ch]) = digitsValue 10 digits * 10 + (ch.toNat - '0'.toNat) := by
  rw [digitsValue, List.foldl_append]
  rfl

/-- Digits that do not begin with a zero are the decimal of their value. -/
theorem toDigits_digitsValue (hdigits : ∀ ch ∈ digits, isDigit ch = true)
    (hhead : digits.head?.any (· != '0') = true) :
    Nat.toDigits 10 (digitsValue 10 digits) = digits ∧ 0 < digitsValue 10 digits := by
  induction digits using List.reverseRecOn with
  | nil => cases hhead
  | append_singleton digits ch ih =>
      have hch := hdigits ch (List.mem_append_right _ (List.mem_singleton_self ch))
      obtain ⟨hless, hsame⟩ := digitChar_of_isDigit hch
      rw [digitsValue_append]
      cases digits with
      | nil =>
          have hvalue : digitsValue 10 [] * 10 + (ch.toNat - '0'.toNat) = ch.toNat - '0'.toNat :=
            Nat.zero_add _
          rw [hvalue, Nat.toDigits_of_lt_base hless, hsame]
          refine ⟨rfl, Nat.pos_of_ne_zero fun hzero => ?_⟩
          rw [hzero] at hsame
          subst hsame
          cases hhead
      | cons first digits =>
          obtain ⟨hfront, hpos⟩ := ih (fun x hx => hdigits x (List.mem_append_left _ hx)) hhead
          have happend := Nat.toDigits_append_toDigits (by decide : 1 < 10) hpos hless
          rw [Nat.mul_comm, ← happend, hfront, Nat.toDigits_of_lt_base hless, hsame]
          exact ⟨rfl, by omega⟩

end

end Pluton.Tar
