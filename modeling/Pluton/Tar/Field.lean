-- SUMMARY: The fields of a TAR header and the records of a PAX extension, as they are decoded.
import Mathlib.Algebra.Group.Int.Defs
import Pluton.Tar.Policy

/-!
# TAR fields

The first part of `backend/src/utils/restic/ManagedTarExport.ts`: texts, numbers and
times as a header or a PAX record holds them, and the header that is packed again
for an entry. A time is its value in milliseconds.
-/
namespace Pluton.Tar

abbrev Bytes := List UInt8

/-- `bytes.subarray(lower, upper)` -/
def subarray (bytes : Bytes) (lower upper : Nat) : Bytes := (bytes.take upper).drop lower

def invalid {α : Type} : Except Failure α := refuse .tarInvalid

/-! ## Texts and numbers -/

def text (bytes : Bytes) : Except Failure String :=
  match Js.decodeFatal bytes with
  | some value => .ok value
  | none => invalid

/-- A text that ends at the first zero; only zeros may follow it. -/
def field (bytes : Bytes) : Except Failure String :=
  if (bytes.dropWhile (· != 0)).any (· != 0) then invalid
  else text (bytes.takeWhile (· != 0))

def isOctal (ch : Char) : Bool := '0' ≤ ch && ch ≤ '7'

def isDigit (ch : Char) : Bool := '0' ≤ ch && ch ≤ '9'

/-- The digits' value in a base. -/
def digitsValue (base : Nat) (digits : List Char) : Nat :=
  digits.foldl (fun value ch => value * base + (ch.toNat - '0'.toNat)) 0

/-- The base-256 form: the top bit marks it, the next one is the sign. -/
def binaryNumber (bytes : Bytes) : Int :=
  let value :=
    bytes.tail.foldl (fun value byte => value * 256 + byte.toNat) (bytes.headD 0 &&& 0x7f).toNat
  if bytes.headD 0 &&& 0x40 != 0 then (value : Int) - 2 ^ (bytes.length * 8 - 1) else value

def octalNumber (bytes : Bytes) : Except Failure Int :=
  if (bytes.dropWhile (· != 0)).any (fun value => value != 0 && value != 32) then invalid
  else do
    let decoded ← text bytes
    let raw := Js.trim (String.ofList (decoded.toList.takeWhile (· != '\x00')))
    if raw.toList.all isOctal then return digitsValue 8 raw.toList else invalid

/-- The value before it is checked. -/
def anyNumber (bytes : Bytes) : Except Failure Int :=
  if bytes.headD 0 &&& 0x80 != 0 then .ok (binaryNumber bytes) else octalNumber bytes

def number (signed : Bool) (bytes : Bytes) : Except Failure Int := do
  let value ← anyNumber bytes
  if (!signed && value < 0) || value > Js.maxSafeInteger || value < -(Js.maxSafeInteger : Int) then
    invalid
  else return value

/-- `number(bytes)`, which is not negative. -/
def natural (bytes : Bytes) : Except Failure Nat := Int.toNat <$> number false bytes

def decimal (value : String) : Except Failure Nat :=
  let digits := value.toList
  if digits.isEmpty || digits.length > 16 || !digits.all isDigit ||
      digitsValue 10 digits > Js.maxSafeInteger then invalid
  else .ok (digitsValue 10 digits)

/-- `new Date(seconds * 1000)` for a whole number of seconds. -/
def wholeTime (seconds : Int) : Except Failure Int :=
  if (seconds * 1000).natAbs > Js.maxTime then invalid else .ok (seconds * 1000)

/-- The decimal is read to the nearest double, multiplied as doubles are, and cut to
whole milliseconds by `Date`. -/
def timestamp (value : String) : Except Failure Int :=
  let negative := Js.startsWith "-" value
  let digits := if negative then value.toList.drop 1 else value.toList
  let whole := digits.takeWhile (· != '.')
  let tail := digits.dropWhile (· != '.')
  let fraction := tail.drop 1
  if whole.isEmpty || whole.length > 12 || !whole.all isDigit ||
      (!tail.isEmpty && (fraction.isEmpty || fraction.length > 9 || !fraction.all isDigit)) then
    invalid
  else
    let seconds := Js.nearestDouble (digitsValue 10 (whole ++ fraction)) (10 ^ fraction.length)
    let ms := Js.truncDouble (Js.nearestDouble (seconds * 1000) Js.unitsPerOne)
    if ms > Js.maxTime then invalid else .ok (if negative then -ms else ms)

/-! ## PAX records -/

/-- A record of texts, in the order of insertion. -/
abbrev Pax := List (String × String)

/-- `pax[key]` -/
def Pax.get (pax : Pax) (key : String) : Option String := pax.lookup key

/-- `pax[key] = value` -/
def Pax.set (pax : Pax) (key value : String) : Pax := Js.mapSet pax key value

def plainKeys : List String :=
  ["path", "linkpath", "size", "mtime", "atime", "ctime", "uid", "gid", "uname", "gname",
    "SCHILY.acl.access", "SCHILY.acl.default"]

def isAttributeChar (ch : Char) : Bool :=
  ('A' ≤ ch && ch ≤ 'Z') || ('a' ≤ ch && ch ≤ 'z') || isDigit ch || ch == '_' ||
    ch == '.' || ch == '-'

/-- `/^SCHILY\.xattr\.user\.[A-Za-z0-9_.-]{1,128}$/` -/
def isUserAttribute (key : String) : Bool :=
  let name := key.toList.drop "SCHILY.xattr.user.".toList.length
  Js.startsWith "SCHILY.xattr.user." key && 1 ≤ name.length && name.length ≤ 128 &&
    name.all isAttributeChar

/-- `/^[1-9]\d{0,6}$/` -/
def isRecordLength (digits : List Char) : Bool :=
  digits.all isDigit && digits.length ≤ 7 && digits.head?.any (· != '0')

/-- The first record of `rest`: its key, its value and its length. -/
def paxRecord (rest : Bytes) : Except Failure (String × String × Nat) := do
  match rest.findIdx? (· == 32) with
  | none => invalid
  | some separator =>
    if separator > 7 then invalid
    else
      let lengthText ← text (rest.take separator)
      if !isRecordLength lengthText.toList then invalid
      else
        let size := digitsValue 10 lengthText.toList
        if size > rest.length || size ≤ separator + 2 || rest[size - 1]? != some 10 then invalid
        else
          -- the sign is looked for in the whole payload, not in this record only
          match (rest.drop (separator + 1)).findIdx? (· == 61) with
          | none => invalid
          | some keyLength =>
            let equals := separator + 1 + keyLength
            if equals ≥ size - 1 then invalid
            else
              let key ← text (subarray rest (separator + 1) equals)
              let value ← text (subarray rest (equals + 1) (size - 1))
              return (key, value, size)

/-- The loop of `paxRecords`. A record takes a byte at least, so the length of the
payload is enough fuel. -/
def paxLoop : Nat → Bytes → Pax → Except Failure Pax
  | 0, _, result => .ok result
  | fuel + 1, rest, result =>
    if rest.isEmpty then .ok result
    else do
      let (key, value, size) ← paxRecord rest
      if (result.get key).isSome || Js.includes '\x00' value then invalid
      else if !plainKeys.contains key && !isUserAttribute key then refuse .tarExtensionUnsupported
      else paxLoop fuel (rest.drop size) (result ++ [(key, value)])

def paxRecords (payload : Bytes) : Except Failure Pax := paxLoop payload.length payload []

/-! ## Packing a header -/

/-- The header given to `pack.entry`. -/
structure PackedHeader where
  name : String
  type : String
  size : Nat
  mode : Nat
  uid : Nat
  gid : Nat
  mtime : Int
  uname : String
  gname : String
  linkname : Option String
  pax : Pax

/-- Whether a text does not fit a header's narrow ASCII field. -/
def needsPax (value : String) : Bool :=
  Js.byteLength value > 31 || value.toList.any fun ch => ch.toNat < 0x20 || 0x7e < ch.toNat

/-- `pax` with an override, when one is needed. -/
def overrideWhen (condition : Bool) (key value : String) (pax : Pax) : Pax :=
  if condition then pax.set key value else pax

def packedHeader (name : String) (metadata : Metadata) : PackedHeader :=
  let wideUid := metadata.uid > 0o777777
  let wideGid := metadata.gid > 0o777777
  -- `seconds < 0 || seconds > 0x7fffffff`
  let wideTime := metadata.mtime < 0 || metadata.mtime > 0x7fffffff * 1000
  let owned := overrideWhen wideGid "gid" (toString metadata.gid)
    (overrideWhen wideUid "uid" (toString metadata.uid) metadata.pax)
  let named := overrideWhen (needsPax metadata.gname) "gname" metadata.gname
    (overrideWhen (needsPax metadata.uname) "uname" metadata.uname owned)
  let timed := overrideWhen (wideTime && (named.get "mtime").getD "" == "") "mtime"
    (Js.secondsText metadata.mtime) named
  { name
    type := metadata.type
    size := metadata.size
    -- the encoder masks the sentinel out again
    mode := if metadata.mode == 0 then 0o10000 else metadata.mode
    uid := if wideUid then 0 else metadata.uid
    gid := if wideGid then 0 else metadata.gid
    mtime := if wideTime then 0 else metadata.mtime
    uname := if needsPax metadata.uname then "" else metadata.uname
    gname := if needsPax metadata.gname then "" else metadata.gname
    linkname := metadata.linkname
    pax := timed.insertionSort fun a b => a.1.toList ≤ b.1.toList }

end Pluton.Tar
