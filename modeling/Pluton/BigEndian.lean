-- SUMMARY: Numbers as big-endian bytes, and fields written into a buffer one after the other.
import Mathlib.Algebra.Order.Ring.Nat
import Mathlib.Data.List.Induction

/-!
# Big-endian numbers

`encode` writes a number into a given number of bytes, `decode` reads one from all bytes
of a list; they are inverse to each other where the number fits. A buffer of zeros that
is written from its start on, field by field, is the fields and the zeros that are left.
-/
namespace BigEndian

/-- The number that the bytes are. -/
def decode (bytes : List UInt8) : Nat := bytes.foldl (fun n byte => n * 256 + byte.toNat) 0

/-- The lowest bytes of a number. -/
def encode : Nat → Nat → List UInt8
  | 0, _ => []
  | width + 1, n => encode width (n / 256) ++ [UInt8.ofNat n]

variable {width n : Nat} {bytes : List UInt8}

@[simp] theorem length_encode (width n : Nat) : (encode width n).length = width := by
  induction width generalizing n with
  | zero => rfl
  | succ width ih => simp [encode, ih]

theorem decode_concat (bytes : List UInt8) (byte : UInt8) :
    decode (bytes ++ [byte]) = decode bytes * 256 + byte.toNat := by
  simp [decode]

theorem decode_lt (bytes : List UInt8) : decode bytes < 256 ^ bytes.length := by
  induction bytes using List.reverseRecOn with
  | nil => decide
  | append_singleton bytes byte ih =>
      have hbyte : byte.toNat < 256 := byte.toNat_lt
      rw [decode_concat, List.length_append, List.length_singleton, pow_succ]
      omega

theorem decode_encode (h : n < 256 ^ width) : decode (encode width n) = n := by
  induction width generalizing n with
  | zero =>
      rw [pow_zero, Nat.lt_one_iff] at h
      rw [h]
      rfl
  | succ width ih =>
      have hquot : n / 256 < 256 ^ width :=
        Nat.div_lt_of_lt_mul (by rwa [pow_succ, Nat.mul_comm] at h)
      rw [encode, decode_concat, ih hquot, UInt8.toNat_ofNat']
      exact Nat.div_add_mod' n 256

theorem encode_decode (bytes : List UInt8) : encode bytes.length (decode bytes) = bytes := by
  induction bytes using List.reverseRecOn with
  | nil => rfl
  | append_singleton bytes byte ih =>
      have hbyte : byte.toNat < 256 := byte.toNat_lt
      have hquot : (decode bytes * 256 + byte.toNat) / 256 = decode bytes := by omega
      have hlast : UInt8.ofNat (decode bytes * 256 + byte.toNat) = byte := by
        apply UInt8.toNat_inj.mp
        rw [UInt8.toNat_ofNat']
        omega
      rw [List.length_append, List.length_singleton, encode, decode_concat, hquot, hlast, ih]

/-- What is read from bytes, and what they are when it was written. -/
theorem decode_eq_iff (h : bytes.length = width) :
    decode bytes = n ↔ bytes = encode width n ∧ n < 256 ^ width := by
  subst h
  constructor
  · rintro rfl
    exact ⟨(encode_decode bytes).symm, decode_lt bytes⟩
  · rintro ⟨heq, hn⟩
    rw [heq, decode_encode hn]

/-! ## Fields of a buffer -/

variable {α : Type} {a : α}

/-- The bytes at an offset are replaced. -/
def write (buf : List α) (offset : Nat) (bytes : List α) : List α :=
  buf.take offset ++ bytes ++ buf.drop (offset + bytes.length)

/-- The bytes from an offset on, `width` many. -/
def field (buf : List α) (offset width : Nat) : List α := (buf.drop offset).take width

theorem length_field {buf : List α} {offset width : Nat} (h : offset + width ≤ buf.length) :
    (field buf offset width).length = width := by
  simp only [field, List.length_take, List.length_drop]
  omega

/-- The next field of a buffer of which nothing but zeros is left. -/
theorem write_replicate (done bytes : List α) (left : Nat) {offset : Nat}
    (hoffset : offset = done.length) :
    write (done ++ List.replicate left a) offset bytes =
      (done ++ bytes) ++ List.replicate (left - bytes.length) a := by
  subst hoffset
  simp [write, ← List.drop_drop]

theorem field_add (buf : List α) (offset width width' : Nat) :
    field buf offset (width + width') =
      field buf offset width ++ field buf (offset + width) width' := by
  simp only [field, List.take_add, List.drop_drop]

end BigEndian
