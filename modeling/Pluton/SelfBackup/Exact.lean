-- SUMMARY: Which bytes open as a blob: the sealed ones, up to the highest bits of the magic.
import Pluton.SelfBackup.Blob

/-!
# What opens

`openBlob` reads the fields where `encodeHeader` wrote them, so what opens under a password
is what `sealBlob` makes with that password, with one exception: the magic is compared after
`toString('ascii')`, which drops the highest bit of each byte.
-/
namespace Pluton.SelfBackup

open Except BigEndian

variable {kdf : KdfParams} {salt nonce header : Bytes}

/-! ## The header -/

/-- The header after the magic. -/
def headerTail (kdf : KdfParams) (salt nonce : Bytes) : Bytes :=
  encode 2 FORMAT_VERSION ++ encode 4 kdf.memory ++ encode 4 kdf.passes ++
    encode 4 kdf.parallelism ++ salt ++ nonce

/-- `encodeHeader` does not throw. -/
structure Encodable (kdf : KdfParams) (salt nonce : Bytes) : Prop where
  salt : salt.length = SALT_LEN
  nonce : nonce.length = NONCE_LEN
  memory : kdf.memory < 256 ^ 4
  passes : kdf.passes < 256 ^ 4
  parallelism : kdf.parallelism < 256 ^ 4

theorem writeUInt_eq_ok {width value offset : Nat} {buf buf' : Bytes} :
    writeUInt width value offset buf = .ok buf' ↔
    value < 256 ^ width ∧ buf' = write buf offset (encode width value) := by
  unfold writeUInt
  simp only [bind_eq_ok, refuseIf_eq_ok, pure_eq_ok, decide_eq_false_iff_not, Nat.not_le]
  constructor
  · rintro ⟨-, hvalue, heq⟩
    exact ⟨hvalue, heq.symm⟩
  · rintro ⟨hvalue, heq⟩
    exact ⟨(), hvalue, heq.symm⟩

/-- The fields are written one after the other into a buffer of zeros. -/
theorem written_fields (hsalt : salt.length = SALT_LEN) (hnonce : nonce.length = NONCE_LEN) :
    write (write
      (write (write (write (write (write (List.replicate HEADER_LEN 0) 0 (asciiBytes MAGIC)) 4
      (encode 2 FORMAT_VERSION)) 6 (encode 4 kdf.memory)) 10 (encode 4 kdf.passes)) 14
      (encode 4 kdf.parallelism)) 18
      salt) 34 nonce = asciiBytes MAGIC ++ headerTail kdf salt nonce := by
  have hmagic : (asciiBytes MAGIC).length = 4 := by decide +kernel
  have hstart := @write_replicate UInt8 0 [] (asciiBytes MAGIC) HEADER_LEN 0 rfl
  rw [List.nil_append, List.nil_append] at hstart
  rw [hstart, write_replicate _ _ _ (by simp [hmagic]), write_replicate _ _ _ (by simp [hmagic]),
    write_replicate _ _ _ (by simp [hmagic]), write_replicate _ _ _ (by simp [hmagic]),
    write_replicate _ _ _ (by simp [hmagic]), write_replicate _ _ _ (by
      simp [hmagic, hsalt, SALT_LEN])]
  simp [headerTail, hmagic, hsalt, hnonce, HEADER_LEN, MAGIC_LEN, VERSION_LEN, KDF_PARAMS_LEN,
    SALT_LEN, NONCE_LEN]

theorem encodeHeader_eq_ok :
    encodeHeader kdf salt nonce = .ok header ↔
      Encodable kdf salt nonce ∧ header = asciiBytes MAGIC ++ headerTail kdf salt nonce := by
  unfold encodeHeader
  simp only [bind_eq_ok, refuseIf_eq_ok, pure_eq_ok, writeUInt_eq_ok, bne_eq_false_iff_eq]
  constructor
  · rintro ⟨_, hsalt, _, hnonce, _, ⟨-, rfl⟩, _, ⟨hmemory, rfl⟩, _, ⟨hpasses, rfl⟩, _,
      ⟨hparallelism, rfl⟩, heq⟩
    exact ⟨⟨hsalt, hnonce, hmemory, hpasses, hparallelism⟩,
      heq.symm.trans (written_fields hsalt hnonce)⟩
  · rintro ⟨h, rfl⟩
    exact ⟨(), h.salt, (), h.nonce, _, ⟨by decide, rfl⟩, _, ⟨h.memory, rfl⟩, _, ⟨h.passes, rfl⟩, _,
      ⟨h.parallelism, rfl⟩, written_fields h.salt h.nonce⟩

theorem length_headerTail (hsalt : salt.length = SALT_LEN) (hnonce : nonce.length = NONCE_LEN) :
    (headerTail kdf salt nonce).length = 42 := by
  simp [headerTail, hsalt, hnonce, SALT_LEN, NONCE_LEN]

theorem headerTail_inj {kdf' : KdfParams} {salt' nonce' : Bytes} (h : Encodable kdf salt nonce)
    (h' : Encodable kdf' salt' nonce')
    (heq : headerTail kdf salt nonce = headerTail kdf' salt' nonce') :
    kdf = kdf' ∧ salt = salt' ∧ nonce = nonce' := by
  unfold headerTail at heq
  obtain ⟨heq, hnonce⟩ := List.append_inj' heq (h.nonce.trans h'.nonce.symm)
  obtain ⟨heq, hsalt⟩ := List.append_inj' heq (h.salt.trans h'.salt.symm)
  obtain ⟨heq, hparallelism⟩ := List.append_inj' heq (by simp)
  obtain ⟨heq, hpasses⟩ := List.append_inj' heq (by simp)
  obtain ⟨-, hmemory⟩ := List.append_inj' heq (by simp)
  have hmemory := congrArg decode hmemory
  have hpasses := congrArg decode hpasses
  have hparallelism := congrArg decode hparallelism
  rw [decode_encode h.memory, decode_encode h'.memory] at hmemory
  rw [decode_encode h.passes, decode_encode h'.passes] at hpasses
  rw [decode_encode h.parallelism, decode_encode h'.parallelism] at hparallelism
  refine ⟨?_, hsalt, hnonce⟩
  obtain ⟨memory, passes, parallelism⟩ := kdf
  obtain ⟨memory', passes', parallelism'⟩ := kdf'
  simp_all

/-! ## The magic -/

/-- A byte without its highest bit. -/
def mask (byte : UInt8) : UInt8 := byte &&& 0x7F

/-- The bytes with the highest bits of the first four cleared. -/
def maskMagic (blob : Bytes) : Bytes := (blob.take MAGIC_LEN).map mask ++ blob.drop MAGIC_LEN

/-- None of the first four bytes has its highest bit set. -/
def lowMagic (blob : Bytes) : Bool := (blob.take MAGIC_LEN).all fun byte => byte < 0x80

theorem mask_eq_self_iff {byte : UInt8} : mask byte = byte ↔ byte < 0x80 := by
  unfold mask
  rw [← UInt8.toNat_inj, UInt8.toNat_and, UInt8.lt_iff_toNat_lt]
  have hmod : byte.toNat &&& 127 = byte.toNat % 128 := Nat.and_two_pow_sub_one_eq_mod byte.toNat 7
  change byte.toNat &&& 127 = byte.toNat ↔ byte.toNat < 128
  rw [hmod]
  omega

theorem toNat_mask_lt (byte : UInt8) : (mask byte).toNat < 128 := by
  unfold mask
  rw [UInt8.toNat_and]
  have hmod : byte.toNat &&& 127 = byte.toNat % 128 := Nat.and_two_pow_sub_one_eq_mod byte.toNat 7
  change byte.toNat &&& 127 < 128
  omega

theorem maskMagic_eq_self_iff {blob : Bytes} : maskMagic blob = blob ↔ lowMagic blob = true := by
  unfold maskMagic lowMagic
  rw [List.all_eq_true]
  constructor
  · intro h byte hbyte
    have hmap : (blob.take MAGIC_LEN).map mask = (blob.take MAGIC_LEN).map id := by
      rw [List.map_id]
      exact List.append_cancel_right (h.trans (List.take_append_drop MAGIC_LEN blob).symm)
    exact decide_eq_true (mask_eq_self_iff.mp (List.map_inj_left.mp hmap byte hbyte))
  · intro h
    have hmap : (blob.take MAGIC_LEN).map mask = (blob.take MAGIC_LEN).map id :=
      List.map_inj_left.mpr fun byte hbyte =>
        mask_eq_self_iff.mpr (of_decide_eq_true (h byte hbyte))
    rw [hmap, List.map_id, List.take_append_drop]

theorem asciiText_eq_iff {bytes : Bytes} :
    asciiText bytes = MAGIC ↔ bytes.map mask = asciiBytes MAGIC := by
  have hback : ∀ byte : UInt8, UInt8.ofNat (Char.ofNat (mask byte).toNat).toNat = mask byte := by
    intro byte
    have hlt := toNat_mask_lt byte
    have hvalid : (mask byte).toNat.isValidChar := .inl (by omega)
    rw [Char.ofNat, dif_pos hvalid]
    exact UInt8.ofNat_toNat
  have hmagic : (asciiBytes MAGIC).map (fun byte => Char.ofNat byte.toNat) = MAGIC.toList := by
    decide +kernel
  rw [← String.toList_inj, asciiText, String.toList_ofList]
  constructor
  · intro h
    have hmap := congrArg (List.map fun ch => UInt8.ofNat ch.toNat) h
    rw [List.map_map] at hmap
    exact (List.map_congr_left fun byte _ => hback byte).symm.trans hmap
  · intro h
    rw [← hmagic, ← h, List.map_map]
    rfl

/-! ## Parsing -/

theorem assertSaneKdfParams_eq_ok {u : Unit} :
    assertSaneKdfParams kdf = .ok u ↔ kdf.isSane = true := by
  unfold assertSaneKdfParams KdfParams.isSane
  simp only [bind_eq_ok, refuseIf_eq_ok, Bool.not_eq_false', Bool.and_eq_true]
  constructor
  · rintro ⟨-, hmemory, -, hpasses, hparallelism⟩
    exact ⟨⟨hmemory, hpasses⟩, hparallelism⟩
  · rintro ⟨⟨hmemory, hpasses⟩, hparallelism⟩
    exact ⟨(), hmemory, (), hpasses, hparallelism⟩

theorem field_tail_iff {blob : Bytes} (hlen : HEADER_LEN + TAG_LEN ≤ blob.length) :
    (field blob 4 42 = headerTail kdf salt nonce ∧ Encodable kdf salt nonce) ↔
      readUInt 2 4 blob = FORMAT_VERSION ∧
        (⟨readUInt 4 6 blob, readUInt 4 10 blob, readUInt 4 14 blob⟩ : KdfParams) = kdf ∧
        field blob 18 SALT_LEN = salt ∧ field blob 34 NONCE_LEN = nonce := by
  have hlen : 62 ≤ blob.length := hlen
  have hlength : ∀ offset width, offset + width ≤ 46 → (field blob offset width).length = width :=
    fun offset width hle => length_field (by omega)
  have hparts : field blob 4 42 =
      field blob 4 2 ++ field blob 6 4 ++ field blob 10 4 ++ field blob 14 4 ++
      field blob 18 16 ++ field blob 34 12 := by
    change field blob 4 (2 + 4 + 4 + 4 + 16 + 12) = _
    rw [field_add, field_add, field_add, field_add, field_add]
  obtain ⟨memory, passes, parallelism⟩ := kdf
  unfold readUInt headerTail
  rw [hparts, KdfParams.mk.injEq, decode_eq_iff (hlength 4 2 (by decide)),
    decode_eq_iff (hlength 6 4 (by decide)), decode_eq_iff (hlength 10 4 (by decide)),
    decode_eq_iff (hlength 14 4 (by decide))]
  constructor
  · rintro ⟨heq, h⟩
    obtain ⟨heq, hnonce⟩ := List.append_inj' heq ((hlength 34 12 (by decide)).trans h.nonce.symm)
    obtain ⟨heq, hsalt⟩ := List.append_inj' heq ((hlength 18 16 (by decide)).trans h.salt.symm)
    obtain ⟨heq, hparallelism⟩ :=
      List.append_inj' heq (by rw [hlength 14 4 (by decide), length_encode])
    obtain ⟨heq, hpasses⟩ := List.append_inj' heq (by rw [hlength 10 4 (by decide), length_encode])
    obtain ⟨hversion, hmemory⟩ :=
      List.append_inj' heq (by rw [hlength 6 4 (by decide), length_encode])
    exact ⟨⟨hversion, by decide⟩,
      ⟨⟨hmemory, h.memory⟩, ⟨hpasses, h.passes⟩, hparallelism, h.parallelism⟩, hsalt, hnonce⟩
  · rintro ⟨⟨hversion, -⟩, ⟨⟨hmemory, hm⟩, ⟨hpasses, hp⟩, hparallelism, hl⟩, hsalt, hnonce⟩
    refine ⟨?_, hsalt ▸ hlength 18 16 (by decide), hnonce ▸ hlength 34 12 (by decide), hm, hp, hl⟩
    rw [hversion, hmemory, hpasses, hparallelism, ← hsalt, ← hnonce]
    rfl

/-- What `parseHeader` returns, and of which bytes. -/
structure Parses (blob : Bytes) (header : ParsedHeader) : Prop where
  length : HEADER_LEN + TAG_LEN ≤ blob.length
  magic : (blob.take MAGIC_LEN).map mask = asciiBytes MAGIC
  tail : field blob 4 42 = headerTail header.kdf header.salt header.nonce
  encodable : Encodable header.kdf header.salt header.nonce
  sane : header.kdf.isSane = true
  version : header.version = FORMAT_VERSION
  bodyOffset : header.bodyOffset = HEADER_LEN

theorem parseHeader_eq_ok {blob : Bytes} {header : ParsedHeader} :
    parseHeader blob = .ok header ↔ Parses blob header := by
  unfold parseHeader
  simp only [bind_eq_ok, refuseIf_eq_ok, pure_eq_ok, decide_eq_false_iff_not, Nat.not_lt,
    bne_eq_false_iff_eq, asciiText_eq_iff, assertSaneKdfParams_eq_ok]
  constructor
  · rintro ⟨_, hlen, _, hmagic, _, hversion, _, hsane, rfl⟩
    obtain ⟨htail, hencodable⟩ := (field_tail_iff hlen).mpr ⟨hversion, rfl, rfl, rfl⟩
    exact { length := hlen, magic := hmagic, tail := htail, encodable := hencodable, sane := hsane
            version := hversion, bodyOffset := rfl }
  · intro h
    obtain ⟨version, kdf, salt, nonce, bodyOffset⟩ := header
    obtain ⟨hversion, hkdf, hsalt, hnonce⟩ := (field_tail_iff h.length).mp ⟨h.tail, h.encodable⟩
    refine ⟨(), h.length, (), h.magic, (), hversion, (), ?_, ?_⟩
    · exact hkdf.symm ▸ h.sane
    · rw [ParsedHeader.mk.injEq]
      exact ⟨hversion.trans h.version.symm, hkdf, hsalt, hnonce, h.bodyOffset.symm⟩

/-! ## Opening -/

section Opening

variable {Key : Type} (prim : Primitives Key) (Drawn : Key → Bytes → Bytes → Prop)

/-- What opens is what was sealed: under a key and a nonce, exactly the ciphertexts and
tags of the plaintexts that were sealed with them. When that is every plaintext, this says
that decryption undoes encryption and that the tag is the one of the ciphertext. -/
structure Aead : Prop where
  length_tag : ∀ key nonce tar, (prim.gcmSeal key nonce tar).2.length = TAG_LEN
  opens_iff : ∀ key nonce ciphertext tag tar, prim.gcmOpen key nonce ciphertext tag = some tar ↔
    Drawn key nonce tar ∧ prim.gcmSeal key nonce tar = (ciphertext, tag)

/-- `sealBlob` makes the blob from the plaintext and the password, with parameters within
`KDF_LIMITS` and a salt and a nonce with which the plaintext is sealed. -/
structure Produced (tar : Bytes) (password : String) (blob : Bytes) : Prop where
  made : ∃ kdf salt nonce key, kdf.isSane = true ∧
    prim.deriveKey password salt kdf = .ok key ∧ Drawn key nonce tar ∧
    sealBlob prim tar password kdf salt nonce = .ok blob

variable {prim Drawn} {tar blob : Bytes} {password : String}

theorem sealBlob_eq_ok {key : Key} (hkey : prim.deriveKey password salt kdf = .ok key) :
    sealBlob prim tar password kdf salt nonce = .ok blob ↔
      Encodable kdf salt nonce ∧ blob = asciiBytes MAGIC ++ headerTail kdf salt nonce ++
        (prim.gcmSeal key nonce tar).1 ++ (prim.gcmSeal key nonce tar).2 := by
  unfold sealBlob
  simp only [bind_eq_ok, pure_eq_ok, hkey, Except.ok.injEq, exists_eq_left', encodeHeader_eq_ok]
  constructor
  · rintro ⟨_, ⟨h, rfl⟩, heq⟩
    exact ⟨h, heq.symm⟩
  · rintro ⟨h, rfl⟩
    exact ⟨_, ⟨h, rfl⟩, rfl⟩

theorem openBlob_eq_ok :
    openBlob prim blob password = .ok tar ↔
      ∃ header key, Parses blob header ∧ prim.deriveKey password header.salt header.kdf = .ok key ∧
        prim.gcmOpen key header.nonce ((blob.take (blob.length - TAG_LEN)).drop HEADER_LEN)
          (blob.drop (blob.length - TAG_LEN)) = some tar := by
  unfold openBlob
  simp only [bind_eq_ok, parseHeader_eq_ok]
  constructor
  · rintro ⟨header, hheader, key, hkey, hopen⟩
    refine ⟨header, key, hheader, hkey, ?_⟩
    rw [← hheader.bodyOffset]
    split at hopen
    · next found hfound =>
        rw [hfound, (pure_eq_ok.mp hopen : found = tar)]
    · cases hopen
  · rintro ⟨header, key, hheader, hkey, hopen⟩
    rw [← hheader.bodyOffset] at hopen
    exact ⟨header, hheader, key, hkey, by rw [hopen]; rfl⟩

/-- The parts of a blob, with the highest bits of the magic cleared. -/
theorem maskMagic_parts {header : ParsedHeader} (h : Parses blob header) :
    maskMagic blob = asciiBytes MAGIC ++ headerTail header.kdf header.salt header.nonce ++
      (blob.take (blob.length - TAG_LEN)).drop HEADER_LEN ++ blob.drop (blob.length - TAG_LEN) := by
  have hlen : 62 ≤ blob.length := h.length
  have hsplit : blob.drop 4 = field blob 4 42 ++
      ((blob.take (blob.length - 16)).drop 46 ++ blob.drop (blob.length - 16)) := by
    have hrest : (blob.take (blob.length - 16)).drop 46 ++
        blob.drop (blob.length - 16) = blob.drop 46 := by
      conv_rhs => rw [← List.take_append_drop (blob.length - 16) blob]
      rw [List.drop_append_of_le_length (by rw [List.length_take]; omega)]
    rw [hrest, field, show blob.drop 46 = (blob.drop 4).drop 42 by rw [List.drop_drop],
      List.take_append_drop]
  unfold maskMagic
  rw [h.magic]
  simp only [MAGIC_LEN, TAG_LEN, HEADER_LEN, VERSION_LEN, KDF_PARAMS_LEN, SALT_LEN, NONCE_LEN]
  rw [hsplit, h.tail]
  simp only [List.append_assoc]

theorem parses_of_parts {ciphertext tag : Bytes} (h : Encodable kdf salt nonce)
    (hsane : kdf.isSane = true) (htag : tag.length = TAG_LEN)
    (hblob : maskMagic blob = asciiBytes MAGIC ++ headerTail kdf salt nonce ++ ciphertext ++ tag) :
    Parses blob ⟨FORMAT_VERSION, kdf, salt, nonce, HEADER_LEN⟩ ∧
      (blob.take (blob.length - TAG_LEN)).drop HEADER_LEN = ciphertext ∧
      blob.drop (blob.length - TAG_LEN) = tag := by
  have hmagic : (asciiBytes MAGIC).length = 4 := by decide +kernel
  have htail : (headerTail kdf salt nonce).length = 42 := length_headerTail h.salt h.nonce
  have htag : tag.length = 16 := htag
  have hlength : blob.length = 62 + ciphertext.length := by
    have hboth := congrArg List.length hblob
    simp only [maskMagic, List.length_append, List.length_map, List.length_take, List.length_drop,
      hmagic, htail, htag, MAGIC_LEN] at hboth
    omega
  obtain ⟨hfirst, hrest⟩ : (blob.take 4).map mask = asciiBytes MAGIC ∧
      blob.drop 4 = headerTail kdf salt nonce ++ (ciphertext ++ tag) := by
    simp only [maskMagic, MAGIC_LEN, List.append_assoc] at hblob
    refine List.append_inj hblob ?_
    rw [List.length_map, List.length_take, hmagic]
    omega
  have hbody : blob.drop 46 = ciphertext ++ tag := by
    rw [show blob.drop 46 = (blob.drop 4).drop 42 by rw [List.drop_drop], hrest,
      ← htail, List.drop_left]
  have hcut : blob.length - 16 = 46 + ciphertext.length := by omega
  refine ⟨{ length := ?_, magic := hfirst, tail := ?_, encodable := h, sane := hsane,
            version := rfl, bodyOffset := rfl }, ?_, ?_⟩
  · simp only [HEADER_LEN, MAGIC_LEN, VERSION_LEN, KDF_PARAMS_LEN, SALT_LEN, NONCE_LEN, TAG_LEN]
    omega
  · rw [field, hrest, ← htail, List.take_left]
  · change (blob.take (blob.length - 16)).drop 46 = ciphertext
    rw [List.drop_take, hcut, Nat.add_sub_cancel_left, hbody, List.take_left]
  · change blob.drop (blob.length - 16) = tag
    rw [hcut, ← List.drop_drop, hbody, List.drop_left]

/-- The bytes that open under a password, and what they open to. -/
theorem openBlob_iff (haead : Aead prim Drawn) :
    openBlob prim blob password = .ok tar ↔ Produced prim Drawn tar password (maskMagic blob) := by
  rw [openBlob_eq_ok]
  constructor
  · rintro ⟨header, key, hheader, hkey, hopen⟩
    obtain ⟨hdrawn, hseal⟩ := (haead.opens_iff _ _ _ _ _).mp hopen
    refine ⟨header.kdf, header.salt, header.nonce, key, hheader.sane, hkey, hdrawn,
      (sealBlob_eq_ok hkey).mpr ⟨hheader.encodable, ?_⟩⟩
    rw [hseal]
    exact maskMagic_parts hheader
  · rintro ⟨kdf, salt, nonce, key, hsane, hkey, hdrawn, hseal⟩
    obtain ⟨hencodable, hblob⟩ := (sealBlob_eq_ok hkey).mp hseal
    obtain ⟨hparses, hciphertext, htag⟩ :=
      parses_of_parts hencodable hsane (haead.length_tag key nonce tar) hblob
    refine ⟨_, key, hparses, hkey, (haead.opens_iff _ _ _ _ _).mpr ⟨hdrawn, ?_⟩⟩
    rw [hciphertext, htag]

theorem Produced.take_magic (h : Produced prim Drawn tar password blob) :
    blob.take MAGIC_LEN = asciiBytes MAGIC := by
  obtain ⟨kdf, salt, nonce, key, -, hkey, -, hseal⟩ := h
  obtain ⟨-, rfl⟩ := (sealBlob_eq_ok hkey).mp hseal
  rw [List.append_assoc, List.append_assoc]
  exact List.take_left' (by decide +kernel)

theorem Produced.lowMagic (h : Produced prim Drawn tar password blob) : lowMagic blob = true := by
  unfold SelfBackup.lowMagic
  rw [h.take_magic]
  decide +kernel

/-! ## A byte that is changed -/

variable (prim Drawn) in
/-- No nonce is used for two plaintexts under one key, and no two sealings give the same
ciphertext and tag. -/
structure Fresh : Prop where
  once : ∀ {key nonce tar tar'}, Drawn key nonce tar → Drawn key nonce tar' → tar = tar'
  apart : ∀ {key key' nonce nonce' tar tar'}, Drawn key nonce tar → Drawn key' nonce' tar' →
    prim.gcmSeal key nonce tar = prim.gcmSeal key' nonce' tar' → key = key' ∧ nonce = nonce'

/-- The key tells the password, the salt and the parameters apart. -/
def Injective (prim : Primitives Key) : Prop :=
  ∀ {password password' salt salt' kdf kdf' key}, prim.deriveKey password salt kdf = .ok key →
    prim.deriveKey password' salt' kdf' = .ok key → password = password' ∧ salt = salt' ∧ kdf = kdf'

variable {i : Nat} {byte : UInt8} {tar' : Bytes}

/-- Two blobs of one password that differ in one byte at most are the same: the
header is the same, or the ciphertext and the tag are. -/
theorem Produced.set_eq (haead : Aead prim Drawn) (hfresh : Fresh prim Drawn)
    (hinj : Injective prim) (h : Produced prim Drawn tar password blob)
    (h' : Produced prim Drawn tar' password (blob.set i byte)) :
    blob.set i byte = blob := by
  obtain ⟨kdf, salt, nonce, key, -, hkey, hdrawn, hseal⟩ := h
  obtain ⟨kdf', salt', nonce', key', -, hkey', hdrawn', hseal'⟩ := h'
  obtain ⟨hencodable, hblob⟩ := (sealBlob_eq_ok hkey).mp hseal
  obtain ⟨hencodable', hblob'⟩ := (sealBlob_eq_ok hkey').mp hseal'
  have hmagic : (asciiBytes MAGIC).length = 4 := by decide +kernel
  have hfront : (asciiBytes MAGIC ++ headerTail kdf salt nonce).length = 46 := by
    rw [List.length_append, hmagic, length_headerTail hencodable.salt hencodable.nonce]
  have hfront' : (asciiBytes MAGIC ++ headerTail kdf' salt' nonce').length = 46 := by
    rw [List.length_append, hmagic, length_headerTail hencodable'.salt hencodable'.nonce]
  have htag := haead.length_tag key nonce tar
  have htag' := haead.length_tag key' nonce' tar'
  rw [List.append_assoc _ _ (prim.gcmSeal _ _ _).2] at hblob hblob'
  suffices hsame : kdf = kdf' ∧ salt = salt' ∧ nonce = nonce' ∧ tar = tar' ∧ key = key' by
    obtain ⟨rfl, rfl, rfl, rfl, rfl⟩ := hsame
    rw [hblob', ← hblob]
  by_cases hpart : i < 46
  · have hbody : (blob.set i byte).drop 46 = blob.drop 46 := List.drop_set_of_lt hpart
    rw [hblob', hblob, List.drop_left' hfront, List.drop_left' hfront'] at hbody
    obtain ⟨hciphertext, htags⟩ := List.append_inj' hbody (htag'.trans htag.symm)
    obtain ⟨rfl, rfl⟩ := hfresh.apart hdrawn' hdrawn (Prod.ext hciphertext htags)
    obtain ⟨-, rfl, rfl⟩ := hinj hkey hkey'
    exact ⟨rfl, rfl, rfl, hfresh.once hdrawn hdrawn', rfl⟩
  · have htake : (blob.set i byte).take 46 = blob.take 46 :=
      List.take_set_of_le (Nat.not_lt.mp hpart)
    rw [hblob', hblob, List.take_left' hfront, List.take_left' hfront'] at htake
    obtain ⟨rfl, rfl, rfl⟩ :=
      headerTail_inj hencodable hencodable' (List.append_cancel_left htake).symm
    obtain rfl : key = key' := Except.ok.inj (hkey.symm.trans hkey')
    exact ⟨rfl, rfl, rfl, hfresh.once hdrawn hdrawn', rfl⟩

theorem maskMagic_set (hi : i < MAGIC_LEN) :
    maskMagic (blob.set i byte) =
      ((blob.take MAGIC_LEN).map mask).set i (mask byte) ++ blob.drop MAGIC_LEN := by
  unfold maskMagic
  rw [List.take_set, List.map_set, List.drop_set_of_lt hi]

theorem maskMagic_set_of_le (hlow : lowMagic blob = true) (hi : MAGIC_LEN ≤ i) :
    maskMagic (blob.set i byte) = blob.set i byte := by
  apply maskMagic_eq_self_iff.mpr
  unfold lowMagic at hlow ⊢
  rw [List.take_set_of_le hi]
  exact hlow

/-- A blob with one byte changed opens only when the change is the highest bit of a byte of
the magic. -/
theorem changed_opens_iff (haead : Aead prim Drawn) (hfresh : Fresh prim Drawn)
    (hinj : Injective prim) (h : Produced prim Drawn tar password blob) (hi : i < blob.length)
    (hbyte : byte ≠ blob[i]) :
    (∃ tar', openBlob prim (blob.set i byte) password = .ok tar') ↔
    i < MAGIC_LEN ∧ mask byte = blob[i] := by
  have hlow : (blob.take MAGIC_LEN).map mask = blob.take MAGIC_LEN := by
    have hself := maskMagic_eq_self_iff.mpr h.lowMagic
    unfold maskMagic at hself
    exact List.append_cancel_right (hself.trans (List.take_append_drop MAGIC_LEN blob).symm)
  constructor
  · rintro ⟨tar', hopen⟩
    have hproduced := (openBlob_iff haead).mp hopen
    by_cases hmagic : i < MAGIC_LEN
    · refine ⟨hmagic, ?_⟩
      have htake := hproduced.take_magic
      have hlength : (((blob.take MAGIC_LEN).map mask).set i (mask byte)).length = MAGIC_LEN := by
        rw [List.length_set, List.length_map, h.take_magic]
        decide +kernel
      rw [maskMagic_set hmagic, List.take_left' hlength, hlow, ← h.take_magic] at htake
      have hat := congrArg (·[i]?) htake
      simp only [List.getElem?_take, hmagic, if_true, List.getElem?_set_self',
        List.getElem?_eq_getElem hi] at hat
      simpa using hat
    · have hle := Nat.not_lt.mp hmagic
      rw [maskMagic_set_of_le h.lowMagic hle] at hproduced
      have hsame := h.set_eq haead hfresh hinj hproduced
      have hat := congrArg (·[i]?) hsame
      simp [hi] at hat
      exact absurd hat hbyte
  · rintro ⟨hmagic, hmask⟩
    refine ⟨tar, (openBlob_iff haead).mpr ?_⟩
    have hset : (blob.take MAGIC_LEN).set i (mask byte) = blob.take MAGIC_LEN := by
      rw [hmask, ← List.take_set, List.set_getElem_self]
    rw [maskMagic_set hmagic, hlow, hset, List.take_append_drop]
    exact h

theorem encodeHeader_parsed {header : ParsedHeader} (h : Parses blob header) :
    encodeHeader header.kdf header.salt header.nonce = .ok (blob.take HEADER_LEN) ↔
    lowMagic blob = true := by
  have hfields : blob.take HEADER_LEN = blob.take MAGIC_LEN ++ field blob 4 42 := by
    change blob.take (4 + 42) = _
    rw [List.take_add]
    rfl
  rw [encodeHeader_eq_ok, hfields, h.tail, and_iff_right h.encodable, ← h.magic,
    List.append_cancel_right_eq, ← maskMagic_eq_self_iff]
  unfold maskMagic
  constructor
  · intro heq
    rw [← heq, List.take_append_drop]
  · intro hself
    exact (List.append_cancel_right (hself.trans (List.take_append_drop MAGIC_LEN blob).symm)).symm

/-- A blob opens to a plaintext exactly if it was sealed from it, and its header is the one
that is encoded from what is read of it, and a changed byte makes it unopenable: each unless
the highest bit of one of the first four bytes of a blob was set. -/
theorem blob_exact (prim : Primitives Key) (Drawn : Key → Bytes → Bytes → Prop)
    (haead : Aead prim Drawn) :
    (∀ blob password tar,
      (openBlob prim blob password = .ok tar ↔ Produced prim Drawn tar password blob) ↔
        lowMagic blob = true ∨ ¬ Produced prim Drawn tar password (maskMagic blob)) ∧
    (∀ blob header, parseHeader blob = .ok header →
      (encodeHeader header.kdf header.salt header.nonce = .ok (blob.take HEADER_LEN) ↔
        lowMagic blob = true)) ∧
    (Fresh prim Drawn → Injective prim → ∀ tar password blob i byte (_ : i < blob.length),
      Produced prim Drawn tar password blob → byte ≠ blob[i] →
        ((∀ tar', openBlob prim (blob.set i byte) password ≠ .ok tar') ↔
          ¬ (i < MAGIC_LEN ∧ mask byte = blob[i]))) := by
  refine ⟨fun blob password tar => ?_,
    fun blob header h => encodeHeader_parsed (parseHeader_eq_ok.mp h), ?_⟩
  · rw [openBlob_iff haead]
    constructor
    · intro hsame
      by_cases hproduced : Produced prim Drawn tar password (maskMagic blob)
      · exact .inl (hsame.mp hproduced).lowMagic
      · exact .inr hproduced
    · rintro (hlow | hproduced)
      · rw [maskMagic_eq_self_iff.mpr hlow]
      · refine iff_of_false hproduced fun h => hproduced ?_
        rw [maskMagic_eq_self_iff.mpr h.lowMagic]
        exact h
  · intro hfresh hinj tar password blob i byte hi h hbyte
    rw [← changed_opens_iff haead hfresh hinj h hi hbyte, not_exists]

end Opening

/-! ## A blob of three bytes -/

namespace Sample

/-- The key is what it is derived from, and one sealing is made. -/
abbrev Key : Type := String × Bytes × KdfParams

def sampleSalt : Bytes := List.replicate 16 5

def sampleNonce : Bytes := List.replicate 12 9

def sampleKey : Key := ("secret", sampleSalt, ARGON2_DEFAULTS)

def sampleTag : Bytes := List.replicate 16 7

def Drawn (key : Key) (nonce tar : Bytes) : Prop :=
  key = sampleKey ∧ nonce = sampleNonce ∧ tar = [1, 2, 3]

def primitives : Primitives Key where
  deriveKey password salt kdf := .ok (password, salt, kdf)
  gcmSeal _ _ tar := (tar, sampleTag)
  gcmOpen key nonce ciphertext tag :=
    if key = sampleKey ∧ nonce = sampleNonce ∧ ciphertext = [1, 2, 3] ∧
      tag = sampleTag then some [1, 2, 3] else none

theorem aead : Aead primitives Drawn where
  length_tag _ _ _ := rfl
  opens_iff key nonce ciphertext tag tar := by
    simp only [primitives, Drawn, Option.ite_none_right_eq_some, Option.some.injEq, Prod.mk.injEq]
    constructor
    · rintro ⟨⟨hkey, hnonce, rfl, rfl⟩, rfl⟩
      exact ⟨⟨hkey, hnonce, rfl⟩, rfl, rfl⟩
    · rintro ⟨⟨hkey, hnonce, rfl⟩, rfl, rfl⟩
      exact ⟨⟨hkey, hnonce, rfl, rfl⟩, rfl⟩

theorem fresh : Fresh primitives Drawn where
  once h h' := h.2.2.trans h'.2.2.symm
  apart h h' _ := ⟨h.1.trans h'.1.symm, h.2.1.trans h'.2.1.symm⟩

theorem injective : Injective primitives := by
  intro password password' salt salt' kdf kdf' key h h'
  have hsame := Except.ok.inj (h.trans h'.symm)
  exact ⟨congrArg Prod.fst hsame, congrArg (fun key : Key => key.2.1) hsame,
    congrArg (fun key : Key => key.2.2) hsame⟩

/-- The blob of the sealing that is made. -/
def sampleBlob : Bytes :=
  [0x50, 0x4C, 0x42, 0x4B, 0, 1, 0, 1, 0, 0, 0, 0, 0, 3, 0, 0, 0, 1] ++ sampleSalt ++ sampleNonce ++
    [1, 2, 3] ++ sampleTag

theorem produced : Produced primitives Drawn [1, 2, 3] "secret" sampleBlob :=
  ⟨ARGON2_DEFAULTS, sampleSalt, sampleNonce, sampleKey, by decide, rfl,
    ⟨rfl, rfl, rfl⟩, by decide +kernel⟩

/-- It opens to what was sealed, and with another last byte it does not open. -/
theorem blob_exact_opens :
    openBlob primitives sampleBlob "secret" = .ok [1, 2, 3] ∧
      ∀ tar, openBlob primitives (sampleBlob.set 64 8) "secret" ≠ .ok tar :=
  have h := blob_exact primitives Drawn aead
  ⟨((h.1 sampleBlob "secret" [1, 2, 3]).mpr (.inl (by decide +kernel))).mpr produced,
    (h.2.2 fresh injective _ _ sampleBlob 64 8 (by decide) produced (by decide)).mpr (by decide)⟩

/-- With the highest bit of its first byte set it still opens, although its header is not
the one that is encoded from what is read of it, and nothing that is sealed gives it. -/
theorem blob_opens_changed :
    openBlob primitives (sampleBlob.set 0 0xD0) "secret" = .ok [1, 2, 3] ∧
    parseHeader (sampleBlob.set 0 0xD0) = .ok ⟨1, ARGON2_DEFAULTS, sampleSalt, sampleNonce, 46⟩ ∧
    encodeHeader ARGON2_DEFAULTS sampleSalt sampleNonce ≠
      .ok ((sampleBlob.set 0 0xD0).take HEADER_LEN) ∧
    ¬ Produced primitives Drawn [1, 2, 3] "secret" (sampleBlob.set 0 0xD0) := by
  refine ⟨by decide +kernel, by decide +kernel, by decide +kernel, fun h => ?_⟩
  exact absurd h.lowMagic (by decide +kernel)

end Sample

end Pluton.SelfBackup
