-- SUMMARY: What `paxRecords` accepts: concatenated canonical records, read back exactly.
import Pluton.Ends
import Pluton.Tar.Texts

/-!
# PAX records

A record is `<length> <key>=<value>` and a newline, where the length counts itself. Its value
may hold any of the separators, and the sign is looked for in the whole payload; still a
payload is split into records in one way only.
-/
namespace Pluton.Tar

open Utf8

/-- A record as it is stored. -/
structure RawRecord where
  length : Bytes
  key : Bytes
  value : Bytes

/-- `<length> <key>=<value>` and a newline -/
def RawRecord.bytes (r : RawRecord) : Bytes := r.length ++ 32 :: (r.key ++ 61 :: (r.value ++ [10]))

/-- The keys that an export knows. -/
def allowedKey (key : String) : Bool := plainKeys.contains key || isUserAttribute key

/-- A record in the one form that a writer gives it: a decimal length, which counts the
record, an allowed key and a text without zeros. -/
structure RawRecord.Canonical (r : RawRecord) : Prop where
  length : r.length = bytesOf (toString r.bytes.length)
  short : r.length.length ≤ 7
  key : ∃ key, r.key = bytesOf key ∧ allowedKey key = true
  value : ∃ value, r.value = bytesOf value ∧ Js.includes '\x00' value = false

/-- No part of the record begins with a byte order mark. -/
structure RawRecord.Unmarked (r : RawRecord) : Prop where
  length : ¬ Marked r.length
  key : ¬ Marked r.key
  value : ¬ Marked r.value

/-- What one round of `paxRecords` reads the record as. -/
structure RawRecord.Read (r : RawRecord) (key value : String) : Prop where
  length : ∃ digits, text r.length = .ok digits ∧ isRecordLength digits.toList = true ∧
    digitsValue 10 digits.toList = r.bytes.length
  space : 32 ∉ r.length
  short : r.length.length ≤ 7
  key : text r.key = .ok key
  sign : 61 ∉ r.key
  value : text r.value = .ok value

/-! ## One record -/

section
variable {bytes rest : Bytes} {r : RawRecord} {key value : String} {size : Nat}

theorem split_of_getElem? {byte : UInt8} {i : Nat} (h : bytes[i]? = some byte) :
    ∃ front tail, bytes = front ++ byte :: tail ∧ i = front.length := by
  obtain ⟨hi, hbyte⟩ := List.getElem?_eq_some_iff.mp h
  refine ⟨bytes.take i, bytes.drop (i + 1), ?_, (List.length_take_of_le (Nat.le_of_lt hi)).symm⟩
  rw [← hbyte, ← List.drop_eq_getElem_cons hi, List.take_append_drop]

/-- `bytes.indexOf(byte)` -/
theorem findIdx?_eq_some {byte : UInt8} {i : Nat} :
    bytes.findIdx? (· == byte) = some i ↔
    ∃ front tail, bytes = front ++ byte :: tail ∧ byte ∉ front ∧ i = front.length := by
  rw [List.findIdx?_eq_some_iff_getElem]
  constructor
  · rintro ⟨hi, hbyte, hbefore⟩
    obtain ⟨front, tail, rfl, rfl⟩ :=
      split_of_getElem? (List.getElem?_eq_some_iff.mpr ⟨hi, beq_iff_eq.mp hbyte⟩)
    refine ⟨front, tail, rfl, fun hmem => ?_, rfl⟩
    obtain ⟨j, hj, hget⟩ := List.mem_iff_getElem.mp hmem
    exact hbefore j hj (beq_iff_eq.mpr (by rw [List.getElem_append_left hj, hget]))
  · rintro ⟨front, tail, rfl, hfront, rfl⟩
    refine ⟨by rw [List.length_append, List.length_cons]; omega, by simp,
      fun j hj hbyte => hfront ?_⟩
    rw [List.getElem_append_left hj, beq_iff_eq] at hbyte
    exact hbyte ▸ List.getElem_mem hj

theorem subarray_append (front part back : Bytes) :
    subarray (front ++ (part ++ back)) front.length (front.length + part.length) = part := by
  rw [subarray, ← List.append_assoc, ← List.length_append, List.take_left, List.drop_left]

theorem RawRecord.length_bytes (r : RawRecord) :
    r.bytes.length = r.length.length + 1 + r.key.length + 1 + r.value.length + 1 := by
  simp only [RawRecord.bytes, List.length_append, List.length_cons, List.length_nil]
  omega

/-- What one round checks, in the order of the source. -/
structure Round (rest : Bytes) (key value : String) (size separator keyLength : Nat) : Prop where
  space : rest.findIdx? (· == 32) = some separator
  near : separator ≤ 7
  length : ∃ digits, text (rest.take separator) = .ok digits ∧ isRecordLength digits.toList = true ∧
    digitsValue 10 digits.toList = size
  inside : size ≤ rest.length
  room : separator + 2 < size
  newline : rest[size - 1]? = some 10
  sign : (rest.drop (separator + 1)).findIdx? (· == 61) = some keyLength
  before : separator + 1 + keyLength < size - 1
  key : text (subarray rest (separator + 1) (separator + 1 + keyLength)) = .ok key
  value : text (subarray rest (separator + 1 + keyLength + 1) (size - 1)) = .ok value

theorem paxRecord_eq_ok : paxRecord rest = .ok (key, value, size) ↔
    ∃ separator keyLength, Round rest key value size separator keyLength := by
  constructor
  -- Each check of the parser that passes is one part of `Round`.
  · intro h
    unfold paxRecord at h
    split at h
    · cases h
    next separator hseparator =>
      split at h
      · cases h
      next hnear =>
        obtain ⟨digits, hdigits, h⟩ := Except.bind_eq_ok.mp h
        split at h
        · cases h
        next hform =>
          dsimp only at h
          split at h
          · cases h
          next hbounds =>
            simp only [Bool.or_eq_true, not_or, decide_eq_true_eq, bne_iff_ne,
              Decidable.not_not] at hbounds
            split at h
            · cases h
            next keyLength hsign =>
              split at h
              · cases h
              next hbefore =>
                obtain ⟨key', hkey, h⟩ := Except.bind_eq_ok.mp h
                obtain ⟨value', hvalue, h⟩ := Except.bind_eq_ok.mp h
                cases h
                exact ⟨separator, keyLength, hseparator, by omega,
                  ⟨digits, hdigits, by simpa using hform, rfl⟩, by omega,
                  by omega, hbounds.2, hsign,
                  by omega, hkey, hvalue⟩
  · rintro ⟨separator, keyLength, hseparator, hnear, ⟨digits, hdigits, hform, rfl⟩, hinside, hroom,
      hnewline, hsign, hbefore,
      hkey, hvalue⟩
    have hnear : ¬ separator > 7 := Nat.not_lt.mpr hnear
    -- The three conditions on the length, as the parser joins them.
    have hbounds : ¬ (digitsValue 10 digits.toList > rest.length ||
        digitsValue 10 digits.toList ≤ separator + 2 ||
        rest[digitsValue 10 digits.toList - 1]? != some 10) = true := by
      simp only [hnewline, bne_self_eq_false, Bool.or_false, Bool.or_eq_true, decide_eq_true_eq]
      omega
    have hbefore : ¬ separator + 1 + keyLength ≥ digitsValue 10 digits.toList - 1 :=
      Nat.not_le.mpr hbefore
    unfold paxRecord
    simp only [hseparator, if_neg hnear]
    apply Except.bind_eq_ok.mpr
    refine ⟨digits, hdigits, ?_⟩
    simp only [hform, Bool.not_true, Bool.false_eq_true, if_false, if_neg hbounds,
      hsign, if_neg hbefore]
    exact Except.bind_eq_ok.mpr ⟨key, hkey, Except.bind_eq_ok.mpr ⟨value, hvalue, rfl⟩⟩

section
variable (r : RawRecord) (more : Bytes)

theorem RawRecord.bytes_append :
    r.bytes ++ more = r.length ++ 32 :: (r.key ++ 61 :: (r.value ++ 10 :: more)) := by
  simp [RawRecord.bytes]

theorem RawRecord.take_length : (r.bytes ++ more).take r.length.length = r.length := by
  rw [r.bytes_append, List.take_left]

theorem RawRecord.drop_length :
    (r.bytes ++ more).drop (r.length.length + 1) = r.key ++ 61 :: (r.value ++ 10 :: more) := by
  rw [r.bytes_append, ← List.drop_drop, List.drop_left, List.drop_one, List.tail_cons]

theorem RawRecord.subarray_key :
    subarray (r.bytes ++ more) (r.length.length + 1)
      (r.length.length + 1 + r.key.length) = r.key := by
  have hpart := subarray_append (r.length ++ [32]) r.key (61 :: (r.value ++ 10 :: more))
  rw [List.length_append, List.length_singleton, List.append_assoc, List.singleton_append] at hpart
  rw [r.bytes_append, hpart]

theorem RawRecord.subarray_value :
    subarray (r.bytes ++ more) (r.length.length + 1 + r.key.length + 1)
      (r.bytes.length - 1) = r.value := by
  have hpart := subarray_append (r.length ++ 32 :: (r.key ++ [61])) r.value (10 :: more)
  have hfront : (r.length ++ 32 :: (r.key ++ [61])).length =
      r.length.length + 1 + r.key.length + 1 := by
    simp only [List.length_append, List.length_cons, List.length_nil]
    omega
  have hend : r.bytes.length - 1 = r.length.length + 1 + r.key.length + 1 + r.value.length := by
    rw [r.length_bytes]
    omega
  rw [hfront, List.append_assoc, List.cons_append, List.append_assoc,
    List.singleton_append] at hpart
  rw [hend, r.bytes_append, hpart]

end

/-- A round reads the record that the rest begins with. -/
theorem paxRecord_read (more : Bytes) (h : r.Read key value) :
    paxRecord (r.bytes ++ more) = .ok (key, value, r.bytes.length) := by
  obtain ⟨hdigits, hspace, hshort, hkey, hsign, hvalue⟩ := h
  have hlength := r.length_bytes
  refine paxRecord_eq_ok.mpr ⟨r.length.length, r.key.length, ?_⟩
  refine ⟨findIdx?_eq_some.mpr ⟨r.length, _, r.bytes_append more, hspace, rfl⟩, hshort,
    ?_, ?_, by omega, ?_,
    findIdx?_eq_some.mpr ⟨r.key, _, r.drop_length more, hsign, rfl⟩, by omega, ?_, ?_⟩
  · rw [r.take_length]
    exact hdigits
  · rw [List.length_append]
    exact Nat.le_add_right _ _
  · have hlast : r.bytes.getLast? = some 10 := by
      rw [RawRecord.bytes, ← List.cons_append, ← List.append_assoc, ← List.cons_append,
        ← List.append_assoc]
      exact List.getLast?_concat
    rw [List.getElem?_append_left (by omega), ← List.getLast?_eq_getElem?, hlast]
  · rw [r.subarray_key]
    exact hkey
  · rw [r.subarray_value]
    exact hvalue

/-- What a round has read is a record that the rest begins with. -/
theorem read_of_paxRecord (h : paxRecord rest = .ok (key, value, size)) :
    ∃ (r : RawRecord) (more : Bytes), rest = r.bytes ++ more ∧
      size = r.bytes.length ∧ r.Read key value := by
  obtain ⟨separator, keyLength, round⟩ := paxRecord_eq_ok.mp h
  obtain ⟨length, tail, hrest, hspace, hseparator⟩ := findIdx?_eq_some.mp round.space
  have hdrop : rest.drop (separator + 1) = tail := by
    rw [hrest, hseparator, ← List.drop_drop, List.drop_left, List.drop_one, List.tail_cons]
  have hsign := round.sign
  rw [hdrop] at hsign
  obtain ⟨key', tail', htail, hfree, hkeyLength⟩ := findIdx?_eq_some.mp hsign
  -- behind the sign, the value ends at the newline
  have hfront : rest = (length ++ 32 :: (key' ++ [61])) ++ tail' := by
    rw [hrest, htail]
    simp
  have hbefore := round.before
  have hlength : (length ++ 32 :: (key' ++ [61])).length = separator + 1 + keyLength + 1 := by
    simp only [List.length_append, List.length_cons, List.length_nil]
    omega
  have hnewline := round.newline
  rw [hfront, List.getElem?_append_right (by omega), hlength] at hnewline
  obtain ⟨value', more, htail', hvalueLength⟩ := split_of_getElem? hnewline
  have hbytes : rest = RawRecord.bytes ⟨length, key', value'⟩ ++ more := by
    rw [RawRecord.bytes_append, hrest, htail, htail']
  have hsize : size = (RawRecord.bytes ⟨length, key', value'⟩).length := by
    rw [RawRecord.length_bytes]
    dsimp only
    omega
  have hdigits := round.length
  have hkey := round.key
  have hvalue := round.value
  rw [hseparator] at hdigits hkey hvalue
  rw [hkeyLength] at hkey hvalue
  rw [hsize] at hdigits hvalue
  rw [hbytes] at hdigits hkey hvalue
  refine ⟨⟨length, key', value'⟩, more, hbytes, hsize, ?_, hspace,
    hseparator ▸ round.near, ?_, hfree, ?_⟩
  · rw [RawRecord.take_length ⟨length, key', value'⟩] at hdigits
    exact hdigits
  · rw [RawRecord.subarray_key ⟨length, key', value'⟩] at hkey
    exact hkey
  · rw [RawRecord.subarray_value ⟨length, key', value'⟩] at hvalue
    exact hvalue

end

/-! ## The payload -/

/-- What is asked of a pair that was read. -/
def Permitted (e : String × String) : Prop := allowedKey e.1 = true ∧ Js.includes '\x00' e.2 = false

/-- The records' keys and values as they are read. -/
abbrev ReadAs (records : List RawRecord) (pax : Pax) : Prop :=
  List.Forall₂ (fun r e => r.Read e.1 e.2 ∧ Permitted e) records pax

def payloadOf (records : List RawRecord) : Bytes := records.flatMap RawRecord.bytes

section
variable {rest payload : Bytes} {result pax : Pax} {records : List RawRecord} {fuel : Nat}

theorem get_isSome {key : String} : (result.get key).isSome = true ↔ key ∈ result.map Prod.fst := by
  rw [Pax.get, Option.isSome_iff_ne_none, ne_eq, List.lookup_eq_none_iff, List.mem_map]
  constructor
  · intro h
    by_contra hnone
    exact h fun e he => bne_iff_ne.mpr fun heq => hnone ⟨e, he, heq.symm⟩
  · rintro ⟨e, he, rfl⟩ h
    exact absurd (h e he) (by simp)

theorem paxLoop_cons (h : rest ≠ []) : paxLoop (fuel + 1) rest result = .ok pax ↔ ∃ key value size,
    paxRecord rest = .ok (key, value, size) ∧ key ∉ result.map Prod.fst ∧ Permitted (key, value) ∧
      paxLoop fuel (rest.drop size) (result ++ [(key, value)]) = .ok pax := by
  have hempty : rest.isEmpty = false := List.isEmpty_eq_false_iff.mpr h
  rw [paxLoop, hempty, if_neg Bool.false_ne_true, Except.bind_eq_ok]
  constructor
  · rintro ⟨⟨key, value, size⟩, hrecord, hloop⟩
    dsimp only at hloop
    split at hloop
    · cases hloop
    next hnew =>
      split at hloop
      · cases hloop
      next hallowed =>
        simp only [Bool.or_eq_true, not_or, get_isSome, Bool.not_eq_true] at hnew
        have hallowed : allowedKey key = true := by
          rw [allowedKey, ← Bool.not_eq_false, Bool.or_eq_false_iff]
          simpa using hallowed
        exact ⟨key, value, size, hrecord, hnew.1, ⟨hallowed, hnew.2⟩, hloop⟩
  · rintro ⟨key, value, size, hrecord, hnew, ⟨hallowed, hzero⟩, hloop⟩
    have hget : (result.get key).isSome = false :=
      Bool.eq_false_iff.mpr fun hsome => hnew (get_isSome.mp hsome)
    have hallowed : (!plainKeys.contains key && !isUserAttribute key) = false := by
      rw [← Bool.not_or, Bool.not_eq_false']
      exact hallowed
    refine ⟨(key, value, size), hrecord, ?_⟩
    have hzero : Js.includes '\x00' value = false := hzero
    simp only [hget, hzero, hallowed, Bool.or_self, Bool.false_eq_true, if_false]
    exact hloop

theorem paxLoop_nil (hnodup : (result.map Prod.fst).Nodup) :
    paxLoop fuel [] result = .ok pax ↔
    ∃ records decoded, [] = payloadOf records ∧ ReadAs records decoded ∧
      ((result ++ decoded).map Prod.fst).Nodup ∧ pax = result ++ decoded := by
  have hdone : paxLoop fuel [] result = .ok result := by cases fuel <;> rfl
  rw [hdone, Except.ok.injEq]
  constructor
  · rintro rfl
    refine ⟨[], [], rfl, .nil, ?_, (List.append_nil _).symm⟩
    rw [List.append_nil]
    exact hnodup
  · rintro ⟨records, decoded, hpayload, hreads, -, rfl⟩
    cases hreads with
    | nil => exact (List.append_nil result).symm
    | cons hread hreads =>
        have hlength := congrArg List.length hpayload
        rw [payloadOf, List.flatMap_cons, List.length_append, RawRecord.length_bytes,
          List.length_nil] at hlength
        omega

theorem nodup_concat {key value : String} (hnodup : (result.map Prod.fst).Nodup)
    (hnew : key ∉ result.map Prod.fst) :
    ((result ++ [(key, value)]).map Prod.fst).Nodup := by
  rw [List.map_append, List.nodup_append]
  refine ⟨hnodup, List.nodup_singleton _, ?_⟩
  rintro a ha b hb rfl
  have hkey : a = key := List.mem_singleton.mp hb
  exact hnew (hkey ▸ ha)

/-- The loop accepts the concatenations of records with new keys. -/
theorem paxLoop_eq_ok (hfuel : rest.length ≤ fuel) (hnodup : (result.map Prod.fst).Nodup) :
    paxLoop fuel rest result = .ok pax ↔
    ∃ records decoded, rest = payloadOf records ∧ ReadAs records decoded ∧
      ((result ++ decoded).map Prod.fst).Nodup ∧ pax = result ++ decoded := by
  induction fuel generalizing rest result with
  | zero =>
      obtain rfl := List.eq_nil_of_length_eq_zero (Nat.le_zero.mp hfuel)
      exact paxLoop_nil hnodup
  | succ fuel ih =>
      by_cases hrest : rest = []
      · subst hrest
        exact paxLoop_nil hnodup
      rw [paxLoop_cons hrest]
      constructor
      -- the first record is read, and the others by induction
      · rintro ⟨key, value, size, hrecord, hnew, hpermitted, hloop⟩
        obtain ⟨r, more, rfl, rfl, hread⟩ := read_of_paxRecord hrecord
        rw [List.drop_left] at hloop
        have hmore : more.length ≤ fuel := by
          have := r.length_bytes
          rw [List.length_append] at hfuel
          omega
        obtain ⟨records, decoded, rfl, hreads, hnodup', rfl⟩ :=
          (ih hmore (nodup_concat hnodup hnew)).mp hloop
        refine ⟨r :: records, (key, value) :: decoded, rfl,
          .cons ⟨hread, hpermitted⟩ hreads, ?_, ?_⟩
        · rw [List.append_assoc] at hnodup'
          exact hnodup'
        · rw [List.append_assoc]
          rfl
      · rintro ⟨records, decoded, rfl, hreads, hnodup', rfl⟩
        cases hreads with
        | nil => exact absurd rfl hrest
        | @cons r e records decoded hread hreads =>
            obtain ⟨key, value⟩ := e
            obtain ⟨hread, hpermitted⟩ := hread
            have hpayload : payloadOf (r :: records) = r.bytes ++ payloadOf records := rfl
            have hmore : (payloadOf records).length ≤ fuel := by
              have := r.length_bytes
              rw [hpayload, List.length_append] at hfuel
              omega
            have hsplit : result ++ (key, value) :: decoded =
                (result ++ [(key, value)]) ++ decoded := by
              rw [List.append_assoc]
              rfl
            rw [hsplit] at hnodup'
            have hfirst : ((result ++ [(key, value)]).map Prod.fst).Nodup :=
              hnodup'.sublist ((List.sublist_append_left _ _).map Prod.fst)
            have hnew : key ∉ result.map Prod.fst := by
              rw [List.map_append, List.nodup_append] at hfirst
              exact fun hmem => hfirst.2.2 key hmem key (List.mem_singleton_self key) rfl
            rw [hpayload]
            refine ⟨key, value, r.bytes.length, paxRecord_read _ hread, hnew, hpermitted, ?_⟩
            rw [List.drop_left]
            exact (ih hmore hfirst).mpr ⟨records, decoded, rfl, hreads, hnodup', hsplit⟩

theorem paxRecords_eq_ok : paxRecords payload = .ok pax ↔
    ∃ records, payload = payloadOf records ∧ ReadAs records pax ∧
    (pax.map Prod.fst).Nodup := by
  have hnil : (([] : Pax).map Prod.fst).Nodup := List.nodup_nil
  rw [paxRecords, paxLoop_eq_ok (Nat.le_refl _) hnil]
  constructor
  · rintro ⟨records, decoded, hpayload, hread, hnodup, rfl⟩
    exact ⟨records, hpayload, hread, hnodup⟩
  · rintro ⟨records, hpayload, hread, hnodup⟩
    exact ⟨records, pax, hpayload, hread, hnodup, rfl⟩

end

/-! ## Canonical records -/

/-- The pair has the bytes of the record's key and value. -/
def RawRecord.Holds (r : RawRecord) (e : String × String) : Prop :=
  r.key = bytesOf e.1 ∧ r.value = bytesOf e.2

section
variable {r : RawRecord} {key value : String} {payload : Bytes} {pax : Pax}
  {records : List RawRecord}

theorem ascii_of_attribute {ch : Char} (h : isAttributeChar ch = true) :
    ch.toNat < 0x80 ∧ ch ≠ '=' := by
  refine ⟨?_, ?_⟩
  · simp only [isAttributeChar, isDigit, Bool.or_eq_true, Bool.and_eq_true, decide_eq_true_eq,
      beq_iff_eq, Char.le_def, UInt32.le_iff_toNat_le] at h
    have hsame : ch.toNat = ch.val.toNat := rfl
    rcases h with ((((⟨-, h⟩ | ⟨-, h⟩) | ⟨-, h⟩) | rfl) | rfl) | rfl
    · exact Nat.lt_of_le_of_lt h (by decide)
    · exact Nat.lt_of_le_of_lt h (by decide)
    · exact Nat.lt_of_le_of_lt h (by decide)
    · decide
    · decide
    · decide
  · rintro rfl
    exact absurd h (by decide)

/-- An allowed key is ASCII and has no sign in it. -/
theorem ascii_of_allowed (h : allowedKey key = true) {ch : Char} (hch : ch ∈ key.toList) :
    ch.toNat < 0x80 ∧ ch ≠ '=' := by
  rcases Bool.or_eq_true_iff.mp h with hplain | huser
  · have hall : ∀ key ∈ plainKeys, ∀ ch ∈ key.toList, ch.toNat < 0x80 ∧ ch ≠ '=' := by
      simp only [← List.forall_iff_forall_mem]
      decide +kernel
    exact hall key (List.contains_iff_mem.mp hplain) ch hch
  · simp only [isUserAttribute, Bool.and_eq_true, List.all_eq_true] at huser
    obtain ⟨⟨⟨hstart, -⟩, -⟩, hname⟩ := huser
    obtain ⟨name, hsplit⟩ := List.isPrefixOf_iff_prefix.mp hstart
    rw [← hsplit, List.drop_left] at hname
    rw [← hsplit, List.mem_append] at hch
    rcases hch with hfront | hback
    · have hall : ∀ ch ∈ "SCHILY.xattr.user.".toList, ch.toNat < 0x80 ∧ ch ≠ '=' :=
        List.forall_iff_forall_mem.mp (by decide +kernel)
      exact hall ch hfront
    · exact ascii_of_attribute (hname ch hback)

theorem ascii_of_toString {n : Nat} {ch : Char} (hch : ch ∈ (toString n).toList) :
    isDigit ch = true ∧ ch.toNat < 0x80 := by
  rw [Nat.toString_eq_ofList_toDigits, String.toList_ofList] at hch
  have hdigit := isDigit_toDigits hch
  have hattribute : isAttributeChar ch = true := by simp [isAttributeChar, hdigit]
  exact ⟨hdigit, (ascii_of_attribute hattribute).1⟩

/-- A canonical record is read, and a mark at the start of its value is all that can be lost. -/
theorem RawRecord.Canonical.read (h : r.Canonical) :
    ∃ key value, r.Read key value ∧ Permitted (key, value) ∧
    r.key = bytesOf key ∧ (¬ Marked r.value → r.value = bytesOf value) := by
  obtain ⟨hlength, hshort, ⟨key, hkey, hallowed⟩, value, hvalue, hzero⟩ := h
  obtain ⟨decoded, htext, hsuffix⟩ := text_bytesOf value
  have hascii : ∀ ch ∈ (toString r.bytes.length).toList, ch.toNat < 0x80 := fun ch hch =>
    (ascii_of_toString hch).2
  have hdigits : text r.length = .ok (toString r.bytes.length) := by
    rw [hlength]
    exact text_ascii hascii
  have hpos : 0 < r.bytes.length := by
    rw [r.length_bytes]
    omega
  refine ⟨key, decoded, ⟨⟨toString r.bytes.length, hdigits, ?_, digitsValue_toString _⟩, ?_, hshort,
    ?_, ?_, hvalue ▸ htext⟩,
    ⟨hallowed, ?_⟩, hkey, fun hmark => ?_⟩
  · have hsize : (toString r.bytes.length).toList.length = r.length.length := by
      rw [hlength, bytesOf, encode_ascii hascii, List.length_map]
    simp only [isRecordLength, Bool.and_eq_true, List.all_eq_true, decide_eq_true_eq]
    refine ⟨⟨fun ch hch => (ascii_of_toString hch).1, hsize ▸ hshort⟩, ?_⟩
    rw [Nat.toString_eq_ofList_toDigits, String.toList_ofList]
    exact head_toDigits hpos
  · rw [hlength]
    intro hspace
    have hspace : ' ' ∈ (toString r.bytes.length).toList := (mem_encode_ascii (by decide)).mp hspace
    exact absurd (ascii_of_toString hspace).1 (by decide)
  · rw [hkey]
    exact text_ascii fun ch hch => (ascii_of_allowed hallowed hch).1
  · rw [hkey]
    intro hsign
    have hsign : '=' ∈ key.toList := (mem_encode_ascii (by decide)).mp hsign
    exact (ascii_of_allowed hallowed hsign).2 rfl
  · rw [Js.includes, List.contains_eq_mem, decide_eq_false_iff_not] at hzero ⊢
    exact fun hmem => hzero (hsuffix.subset hmem)
  · rw [hvalue] at hmark ⊢
    rw [(text_unmarked hmark).mp htext]

/-- A record that was read is canonical, unless it has a mark. -/
theorem RawRecord.Read.canonical (h : r.Read key value) (hpermitted : Permitted (key, value))
    (hunmarked : r.Unmarked) :
    r.Canonical ∧ r.Holds (key, value) := by
  obtain ⟨⟨digits, hdigits, hform, hvalue⟩, hspace, hshort, hkey, hsign, htext⟩ := h
  have hkey := (text_unmarked hunmarked.key).mp hkey
  have htext := (text_unmarked hunmarked.value).mp htext
  have hdigits := (text_unmarked hunmarked.length).mp hdigits
  simp only [isRecordLength, Bool.and_eq_true, List.all_eq_true, decide_eq_true_eq] at hform
  obtain ⟨hdecimal, -⟩ := toDigits_digitsValue hform.1.1 hform.2
  refine ⟨⟨?_, hshort, ⟨key, hkey, hpermitted.1⟩, ⟨value, htext, hpermitted.2⟩⟩, hkey, htext⟩
  rw [hdigits, ← hvalue, Nat.toString_eq_ofList_toDigits, hdecimal, String.ofList_toList]

end

end Pluton.Tar
