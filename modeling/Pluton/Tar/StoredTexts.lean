-- SUMMARY: Entries as they are stored: their bytes, and the texts that the reader gives.
import Pluton.Tar.PaxRecords
import Pluton.Tar.Reader
import Pluton.Tar.SafePaths

/-!
# Stored texts

An entry is its header and the extensions in front of it. Its path has three sources: the
header's two fields, a long name, and a PAX record. Which one counts is said here over bytes,
and the reader's text has these bytes.
-/
namespace Pluton.Tar

open Utf8

/-! ## Entries as bytes -/

/-- An extension as it is stored. -/
inductive StoredExtension where
  | pax (records : List RawRecord)
  | longName (name : Bytes)
  | longLink (link : Bytes)

namespace StoredExtension

def kind : StoredExtension → Extension
  | .pax _ => .pax
  | .longName _ => .longName
  | .longLink _ => .longLink

def payload : StoredExtension → Bytes
  | .pax records => payloadOf records
  | .longName name => name ++ [0]
  | .longLink link => link ++ [0]

/-- No text in the extension begins with a byte order mark. -/
def Unmarked : StoredExtension → Prop
  | .pax records => ∀ r ∈ records, r.Unmarked
  | .longName name => ¬ Marked name
  | .longLink link => ¬ Marked link

def records : StoredExtension → List RawRecord
  | .pax records => records
  | _ => []

def name? : StoredExtension → Option Bytes
  | .longName name => some name
  | _ => none

def link? : StoredExtension → Option Bytes
  | .longLink link => some link
  | _ => none

end StoredExtension

/-- The value under a key. -/
def valueIn (records : List RawRecord) (key : String) : Option Bytes :=
  (records.find? (·.key == bytesOf key)).map (·.value)

/-- A header with the extensions in front of it. -/
structure StoredEntry where
  extensions : List StoredExtension
  header : Bytes

/-- The header says `'ustar\\0'`. -/
def isPosix (h : Bytes) : Bool := subarray h 257 263 == [0x75, 0x73, 0x74, 0x61, 0x72, 0]

/-- A POSIX header's directory part. -/
def frontBytes (h : Bytes) : Bytes := if isPosix h then cut (subarray h 345 500) else []

/-- The path that the header's own fields give. -/
def headerPath (h : Bytes) : Bytes :=
  if frontBytes h = [] then cut (subarray h 0 100)
  else frontBytes h ++ 0x2F :: cut (subarray h 0 100)

namespace StoredEntry

/-- The value of a PAX record. -/
def paxValue (s : StoredEntry) (key : String) : Option Bytes :=
  valueIn (s.extensions.flatMap (·.records)) key

def longName (s : StoredEntry) : Option Bytes := (s.extensions.filterMap (·.name?)).getLast?

def longLink (s : StoredEntry) : Option Bytes := (s.extensions.filterMap (·.link?)).getLast?

def pathBytes (s : StoredEntry) : Bytes :=
  ((s.paxValue "path").or s.longName).getD (headerPath s.header)

def linkBytes (s : StoredEntry) : Bytes :=
  ((s.paxValue "linkpath").or s.longLink).getD (cut (subarray s.header 157 257))

def unameBytes (s : StoredEntry) : Bytes :=
  (s.paxValue "uname").getD (cut (subarray s.header 265 297))

def gnameBytes (s : StoredEntry) : Bytes :=
  (s.paxValue "gname").getD (cut (subarray s.header 297 329))

def isDirectory (s : StoredEntry) : Bool := typeFlag s.header == '5'

end StoredEntry

/-- The fields of a header that hold texts. -/
def textFields (h : Bytes) : List (Nat × Nat) :=
  [(0, 100), (157, 257), (265, 297), (297, 329)] ++ if isPosix h then [(345, 500)] else []

/-- No text of the entry begins with a byte order mark. -/
structure StoredEntry.Unmarked (s : StoredEntry) : Prop where
  extensions : ∀ e ∈ s.extensions, e.Unmarked
  header : ∀ bounds ∈ textFields s.header, ¬ Marked (subarray s.header bounds.1 bounds.2)

/-! ## What the reader makes of them -/

/-- The texts that the reader has after some extensions, `pax`, `longName` and `longLink`. -/
inductive TextsOf : List StoredExtension → Option Pax → Option String → Option String → Prop where
  | nil : TextsOf [] none none none
  | pax {extensions : List StoredExtension} {records : List RawRecord} {pax : Pax}
      {name link : Option String}
      (front : TextsOf extensions none name link)
      (accepted : paxRecords (payloadOf records) = .ok pax)
      (read : ReadAs records pax) : TextsOf (extensions ++ [.pax records]) (some pax) name link
  | longName {extensions : List StoredExtension} {bytes : Bytes} {value : String} {pax : Option Pax}
      {name link : Option String}
      (front : TextsOf extensions pax name link) (first : truthy name = false)
      (accepted : Reading.longText (bytes ++ [0]) = .ok value) :
      TextsOf (extensions ++ [.longName bytes]) pax (some value) link
  | longLink {extensions : List StoredExtension} {bytes : Bytes} {value : String} {pax : Option Pax}
      {name link : Option String}
      (front : TextsOf extensions pax name link) (first : truthy link = false)
      (accepted : Reading.longText (bytes ++ [0]) = .ok value) :
      TextsOf (extensions ++ [.longLink bytes]) pax name (some value)

section
variable {extensions : List StoredExtension} {pax : Option Pax} {name link : Option String}
  {r next : Reading} {extension : Extension}

theorem longText_eq_ok {payload : Bytes} {value : String}
    (h : Reading.longText payload = .ok value) :
    ∃ bytes, payload = bytes ++ [0] ∧ 0 ∉ bytes ∧ text bytes = .ok value := by
  unfold Reading.longText at h
  split at h
  · cases h
  next hform =>
    simp only [Bool.or_eq_true, not_or, bne_iff_ne, ne_eq, Decidable.not_not,
      List.contains_iff_mem] at hform
    obtain ⟨hlast, hfree⟩ := hform
    exact ⟨payload.dropLast, (List.dropLast_append_getLast? 0 hlast).symm, hfree, h⟩

/-- An extension that the reader finishes is a stored one, and its texts are those of the list. -/
theorem TextsOf.finish (h : TextsOf extensions r.pax r.longName r.longLink)
    (hnext : r.finishExtension extension = .ok next) :
    ∃ e : StoredExtension, e.kind = extension ∧ e.payload = r.extended ∧
      TextsOf (extensions ++ [e]) next.pax next.longName next.longLink := by
  cases extension with
  | pax =>
      simp only [Reading.finishExtension] at hnext
      split at hnext
      · cases hnext
      next hfirst =>
        obtain ⟨pax, haccepted, hnext⟩ := Except.bind_eq_ok.mp hnext
        cases hnext
        have hnone : r.pax = none := Option.not_isSome_iff_eq_none.mp hfirst
        rw [hnone] at h
        obtain ⟨records, hpayload, hread, -⟩ := paxRecords_eq_ok.mp haccepted
        exact ⟨.pax records, rfl, hpayload.symm, .pax h (hpayload ▸ haccepted) hread⟩
  | longName =>
      obtain ⟨value, haccepted, hnext⟩ := Except.bind_eq_ok.mp hnext
      split at hnext
      · cases hnext
      next hfirst =>
        cases hnext
        obtain ⟨bytes, hpayload, -, -⟩ := longText_eq_ok haccepted
        exact ⟨.longName bytes, rfl, hpayload.symm,
          .longName h (Bool.eq_false_iff.mpr hfirst) (hpayload ▸ haccepted)⟩
  | longLink =>
      obtain ⟨value, haccepted, hnext⟩ := Except.bind_eq_ok.mp hnext
      split at hnext
      · cases hnext
      next hfirst =>
        cases hnext
        obtain ⟨bytes, hpayload, -, -⟩ := longText_eq_ok haccepted
        exact ⟨.longLink bytes, rfl, hpayload.symm,
          .longLink h (Bool.eq_false_iff.mpr hfirst) (hpayload ▸ haccepted)⟩

/-- The texts have the stored bytes. -/
structure TextsOf.Exact (s : StoredEntry) (pax : Pax) (name link : Option String) : Prop where
  values : ∀ key, s.paxValue key = (pax.get key).map bytesOf
  name : s.longName = name.map bytesOf
  link : s.longLink = link.map bytesOf

theorem longText_bytes {bytes : Bytes} {value : String}
    (h : Reading.longText (bytes ++ [0]) = .ok value) (hmark : ¬ Marked bytes) :
    bytes = bytesOf value := by
  obtain ⟨bytes', hsame, -, htext⟩ := longText_eq_ok h
  obtain rfl := List.append_cancel_right hsame
  exact (text_unmarked hmark).mp htext

theorem valueIn_holds {records : List RawRecord} {pax : Pax}
    (h : List.Forall₂ RawRecord.Holds records pax) (key : String) :
    valueIn records key = (pax.get key).map bytesOf := by
  induction h with
  | nil => rfl
  | @cons r e records pax hholds _ ih =>
      obtain ⟨key', value⟩ := e
      obtain ⟨hkey, hvalue⟩ := hholds
      have hget : Pax.get ((key', value) :: pax) key = if key == key' then some value
          else Pax.get pax key := by
        rw [Pax.get, List.lookup_cons]
        cases key == key' <;> rfl
      rw [hget, valueIn, List.find?_cons]
      by_cases hsame : key = key'
      · subst hsame
        rw [hkey, beq_self_eq_true, beq_self_eq_true, if_pos rfl]
        exact congrArg some hvalue
      · have hdiff : (r.key == bytesOf key) = false :=
          beq_eq_false_iff_ne.mpr fun heq => hsame (bytesOf_inj (heq.symm.trans hkey))
        rw [hdiff, beq_eq_false_iff_ne.mpr hsame, if_neg Bool.false_ne_true]
        exact ih

theorem TextsOf.exact (h : TextsOf extensions pax name link)
    (hunmarked : ∀ e ∈ extensions, e.Unmarked) (header : Bytes) :
    Exact ⟨extensions, header⟩ (pax.getD []) name link := by
  induction h with
  | nil => exact ⟨fun key => rfl, rfl, rfl⟩
  | @pax extensions records pax name link front accepted read ih =>
      obtain ⟨hvalues, hname, hlink⟩ := ih fun e he => hunmarked e (List.mem_append_left _ he)
      have hrecords : ∀ r ∈ records, r.Unmarked :=
        hunmarked (.pax records) (List.mem_append_right _ (List.mem_singleton_self _))
      have hholds : List.Forall₂ RawRecord.Holds records pax :=
        ((List.forall₂_and_left _ _).mpr ⟨hrecords, read⟩).imp
          fun r e ⟨hunmarked, hread, hpermitted⟩ => (hread.canonical hpermitted hunmarked).2
      refine ⟨fun key => ?_, ?_, ?_⟩
      -- Nothing in front has a record, so the key is looked up in these records.
      · have hfront : (extensions.flatMap (·.records)).find? (·.key == bytesOf key) = none :=
          Option.map_eq_none_iff.mp (hvalues key)
        have hlist : (extensions ++ [StoredExtension.pax records]).flatMap (·.records) =
            extensions.flatMap (·.records) ++ records := by
          rw [List.flatMap_append, List.flatMap_singleton]
          rfl
        rw [StoredEntry.paxValue, hlist, valueIn, List.find?_append, hfront]
        exact valueIn_holds hholds key
      · rw [← hname, StoredEntry.longName, StoredEntry.longName, List.filterMap_append]
        exact congrArg List.getLast? (List.append_nil _)
      · rw [← hlink, StoredEntry.longLink, StoredEntry.longLink, List.filterMap_append]
        exact congrArg List.getLast? (List.append_nil _)
  | @longName extensions bytes value pax name link front first accepted ih =>
      obtain ⟨hvalues, hname, hlink⟩ := ih fun e he => hunmarked e (List.mem_append_left _ he)
      have hbytes :=
        longText_bytes accepted (hunmarked (.longName bytes)
          (List.mem_append_right _ (List.mem_singleton_self _)))
      -- A long name adds neither a record nor a link.
      refine ⟨fun key => ?_, ?_, ?_⟩
      · rw [← hvalues key, StoredEntry.paxValue, StoredEntry.paxValue, List.flatMap_append]
        exact congrArg (valueIn · key) (List.append_nil _)
      · rw [StoredEntry.longName, List.filterMap_append]
        exact List.getLast?_concat.trans (congrArg some hbytes)
      · rw [← hlink, StoredEntry.longLink, StoredEntry.longLink, List.filterMap_append]
        exact congrArg List.getLast? (List.append_nil _)
  | @longLink extensions bytes value pax name link front first accepted ih =>
      obtain ⟨hvalues, hname, hlink⟩ := ih fun e he => hunmarked e (List.mem_append_left _ he)
      have hbytes :=
        longText_bytes accepted (hunmarked (.longLink bytes)
          (List.mem_append_right _ (List.mem_singleton_self _)))
      refine ⟨fun key => ?_, ?_, ?_⟩
      · rw [← hvalues key, StoredEntry.paxValue, StoredEntry.paxValue, List.flatMap_append]
        exact congrArg (valueIn · key) (List.append_nil _)
      · rw [← hname, StoredEntry.longName, StoredEntry.longName, List.filterMap_append]
        exact congrArg List.getLast? (List.append_nil _)
      · rw [StoredEntry.longLink, List.filterMap_append]
        exact List.getLast?_concat.trans (congrArg some hbytes)

end

/-! ## Paths and links -/

section
variable {s : StoredEntry} {pax : Pax} {longName longLink : Option String} {magic : Magic}
  {name : String}

theorem text_full {bytes : Bytes} {value : String} (h : text bytes = .ok value)
    (hlength : bytes.length ≤ (bytesOf value).length) :
    bytes = bytesOf value := by
  by_cases hmark : Marked bytes
  · rw [text_eq_ok, Js.decodeFatal, if_pos (List.isPrefixOf_iff_prefix.mpr hmark)] at h
    have hrest := congrArg List.length (fromUTF8?_eq_some.mp h)
    have hthree : 3 ≤ bytes.length := hmark.length_le
    rw [List.length_drop] at hrest
    omega
  · exact (text_unmarked hmark).mp h

theorem length_subarray_le (bytes : Bytes) (lower upper : Nat) :
    (subarray bytes lower upper).length ≤ upper - lower := by
  rw [subarray, List.length_drop, List.length_take]
  omega

theorem isPosix_of_readMagic {h : Bytes} (hmagic : readMagic h = .ok magic) :
    isPosix h = true ↔ magic = .posix := by
  obtain ⟨checksum, -, hmagic⟩ := Except.bind_eq_ok.mp hmagic
  split at hmagic
  · cases hmagic
  obtain ⟨label, hlabel, hmagic⟩ := Except.bind_eq_ok.mp hmagic
  -- neither label is longer than the field, so no mark was dropped
  have hlength := length_subarray_le h 257 263
  have hbytes : (bytesOf label).length = 6 →
      subarray h 257 263 = bytesOf label := fun hlabelLength =>
    text_full hlabel (by omega)
  split at hmagic
  next hposix =>
    obtain rfl := beq_iff_eq.mp hposix
    obtain ⟨version, -, hmagic⟩ := Except.bind_eq_ok.mp hmagic
    split at hmagic
    · cases hmagic
    · cases hmagic
      exact iff_of_true (beq_iff_eq.mpr (hbytes (by decide))) rfl
  · split at hmagic
    next hgnu =>
      obtain rfl := beq_iff_eq.mp hgnu
      split at hmagic
      · cases hmagic
      · cases hmagic
        refine iff_of_false (fun hposix => ?_) nofun
        have hsame := (beq_iff_eq.mp hposix).symm.trans (hbytes (by decide))
        exact absurd hsame (by decide)
    · cases hmagic

theorem headerPath_bytes {h : Bytes} {short front : String}
    (hunmarked : ∀ bounds ∈ textFields h, ¬ Marked (subarray h bounds.1 bounds.2))
    (hmagic : isPosix h = true ↔ magic = .posix) (hshort : field (subarray h 0 100) = .ok short)
    (hfront : nameFront h magic = .ok front) :
    headerPath h = bytesOf (if front != "" then front ++ "/" ++ short else short) := by
  have hshortBytes :=
    (field_unmarked hshort (hunmarked (0, 100) (List.mem_append_left _ (by decide)))).1
  have hfrontBytes : frontBytes h = bytesOf front := by
    cases magic with
    | posix =>
        have hposix := hmagic.mpr rfl
        have hmem : (345, 500) ∈ textFields h :=
          List.mem_append_right _ (by rw [hposix]; exact List.mem_singleton_self _)
        rw [frontBytes, if_pos hposix]
        exact (field_unmarked hfront (hunmarked (345, 500) hmem)).1
    | gnu =>
        cases hfront
        rw [frontBytes, if_neg fun hposix => nomatch hmagic.mp hposix]
        rfl
  rw [headerPath, hfrontBytes, hshortBytes]
  by_cases hempty : front = ""
  · subst hempty
    rfl
  · have hbytes : bytesOf front ≠ [] := fun hnil => hempty (bytesOf_inj hnil)
    rw [if_neg hbytes, if_pos (bne_iff_ne.mpr hempty), bytesOf_append,
      bytesOf_append, List.append_assoc]
    rfl

/-- The name has the bytes of the stored path, less the slash that a directory's may end in. -/
theorem entryName_bytes (hexact : TextsOf.Exact s pax longName longLink) (hunmarked : s.Unmarked)
    (hmagic : readMagic s.header = .ok magic)
    (hname : entryName s.header magic (typeFlag s.header) pax longName longLink = .ok name) :
    s.pathBytes = bytesOf name ∨ s.isDirectory = true ∧ s.pathBytes = bytesOf name ++ [0x2F] := by
  obtain ⟨short, hshort, hname⟩ := Except.bind_eq_ok.mp hname
  obtain ⟨front, hfront, hname⟩ := Except.bind_eq_ok.mp hname
  dsimp only at hname
  split at hname
  · cases hname
  have hpath : s.pathBytes = bytesOf (((pax.get "path").or longName).getD (if front !=
      "" then front ++ "/" ++ short else short)) := by
    rw [StoredEntry.pathBytes, hexact.values, hexact.name,
      headerPath_bytes hunmarked.header (isPosix_of_readMagic hmagic) hshort hfront,
      ← Option.map_or]
    exact Option.getD_map _ _ _
  rw [hpath]
  generalize ((pax.get "path").or longName).getD
    (if front != "" then front ++ "/" ++ short else short) = whole at hname ⊢
  generalize hfinal : (if typeFlag s.header == '5' &&
    Js.endsWith "/" whole then String.ofList whole.toList.dropLast else whole) =
    final at hname
  split at hname
  · cases hname
  cases hname
  rw [← hfinal]
  split
  next hslash =>
    obtain ⟨hdirectory, hslash⟩ := Bool.and_eq_true_iff.mp hslash
    obtain ⟨chars, hchars⟩ := List.isSuffixOf_iff_suffix.mp hslash
    have hdrop : whole.toList.dropLast = chars := by rw [← hchars]; exact List.dropLast_concat
    right
    refine ⟨hdirectory, ?_⟩
    rw [bytesOf, bytesOf, String.toList_ofList, hdrop, ← hchars, encode_append]
    rfl
  · left
    rfl

end

/-- The entry resolves to the path, which the index is asked for. -/
def StoredEntry.ResolvesTo (s : StoredEntry) (path : String) : Prop :=
  ∃ pax longName longLink magic name, TextsOf s.extensions pax longName longLink ∧
    readMagic s.header = .ok magic ∧
    entryName s.header magic (typeFlag s.header) (pax.getD []) longName longLink = .ok name ∧
    managedSnapshotPath ("/" ++ name) = .ok path

/-- The entry's texts are those that were emitted. -/
def StoredEntry.Gives (s : StoredEntry) (entry : ManagedExportEntry) (header : PackedHeader) :
    Prop :=
  ∃ pax longName longLink magic name link, TextsOf s.extensions pax longName longLink ∧
    readMagic s.header = .ok magic ∧
    entryName s.header magic (typeFlag s.header) (pax.getD []) longName longLink = .ok name ∧
    managedSnapshotPath ("/" ++ name) = .ok entry.path ∧
    entryLink s.header (pax.getD []) longLink = .ok link ∧
    (∀ target ∈ entry.linkTarget, target = link) ∧
    entry.linkTarget = entry.metadata.linkname ∧
    nameField (pax.getD []) "uname" (subarray s.header 265 297) = .ok entry.metadata.uname ∧
    nameField (pax.getD []) "gname" (subarray s.header 297 329) = .ok entry.metadata.gname ∧
    header = packedHeader name entry.metadata

/-- The stored paths are equal, but for the slash that a directory's may end in. -/
def StoredEntry.SamePath (s s' : StoredEntry) : Prop :=
  s.pathBytes = s'.pathBytes ∨ s.isDirectory = true ∧ s.pathBytes = s'.pathBytes ++ [0x2F] ∨
    s'.isDirectory = true ∧ s'.pathBytes = s.pathBytes ++ [0x2F]

section
variable {s s' : StoredEntry} {path : String} {entry : ManagedExportEntry} {header : PackedHeader}

theorem StoredEntry.Gives.linkname (h : s.Gives entry header) :
    entry.linkTarget = header.linkname := by
  obtain ⟨pax, longName, longLink, magic, name, link, -, -, -, -, -, -, hlink, -, -, rfl⟩ := h
  exact hlink

theorem StoredEntry.ResolvesTo.bytes (h : s.ResolvesTo path) (hunmarked : s.Unmarked) :
    bytesOf path = 0x2F :: s.pathBytes ∨
    s.isDirectory = true ∧ bytesOf path ++ [0x2F] = 0x2F :: s.pathBytes := by
  obtain ⟨pax, longName, longLink, magic, name, htexts, hmagic, hname, hpath⟩ := h
  obtain ⟨rfl, -⟩ := managedSnapshotPath_eq_ok.mp hpath
  have hbytes : bytesOf ("/" ++ name) = 0x2F :: bytesOf name := bytesOf_append "/" name
  rw [hbytes]
  rcases entryName_bytes (htexts.exact hunmarked.extensions s.header) hunmarked hmagic hname with
    hsame | ⟨hdirectory, hslash⟩
  · exact .inl (by rw [hsame])
  · exact .inr ⟨hdirectory, by rw [hslash]; rfl⟩

theorem StoredEntry.ResolvesTo.same (h : s.ResolvesTo path) (h' : s'.ResolvesTo path)
    (hunmarked : s.Unmarked) (hunmarked' : s'.Unmarked) : s.SamePath s' := by
  have hcons : ∀ a b : Bytes, (0x2F : UInt8) :: a = 0x2F :: b →
      a = b := fun a b heq => (List.cons.inj heq).2
  rcases h.bytes hunmarked with hs | ⟨hdirectory, hs⟩ <;>
    rcases h'.bytes hunmarked' with hs' | ⟨hdirectory', hs'⟩
  · exact .inl (hcons _ _ (hs.symm.trans hs'))
  · rw [hs] at hs'
    exact .inr (.inr ⟨hdirectory', (hcons _ _ hs').symm⟩)
  · rw [hs'] at hs
    exact .inr (.inl ⟨hdirectory, (hcons _ _ hs).symm⟩)
  · exact .inl (hcons _ _ (hs.symm.trans hs'))

/-- What is emitted has the stored bytes. -/
structure StoredEntry.Shows (s : StoredEntry) (entry : ManagedExportEntry) : Prop where
  link : ∀ target ∈ entry.linkTarget, bytesOf target = s.linkBytes
  uname : bytesOf entry.metadata.uname = s.unameBytes
  gname : bytesOf entry.metadata.gname = s.gnameBytes

end

end Pluton.Tar
