-- SUMMARY: `postgresRecoveryInput`: a dump's envelope is found and given a new key.
import Pluton.Js
import Pluton.Lossy
import Pluton.Pattern

/-!
# PostgreSQL recovery input

`postgresRecoveryInput` of `backend/src/utils/recoveryDatabaseImport.ts`. The two regular
expressions never have a choice: a comment begins with `-`, what may stand behind the comments
with a backslash or the text's end, and neither is whitespace. So each is read from left to
right here.
-/
namespace Pluton.RecoveryImport

open Utf8

abbrev Bytes := List UInt8

/-- `64 * 1024` -/
def windowSize : Nat := 64 * 1024

inductive ImportFailure where
  /-- `new RecoveryTestError('database-import', 'database-import-failed')` -/
  | databaseImportFailed
  /-- `Buffer.alloc` of a negative size -/
  | outOfRange
  deriving DecidableEq

/-! ## Comments and whitespace -/

/-- `[\r\n]` -/
def isBreak (ch : Char) : Bool := ch == '\r' || ch == '\n'

/-- What stands behind `\r?\n`. -/
def lineFeed : List Char → Option (List Char)
  | '\n' :: rest => some rest
  | '\r' :: '\n' :: rest => some rest
  | _ => none

/-- What stands behind `\r?\n|$`. -/
def lineEnd (text : List Char) : Option (List Char) :=
  if text.isEmpty then some [] else lineFeed text

/-- What stands behind `--[^\r\n]*(?:\r?\n|$)` or `\s`. -/
def skipOne : List Char → Option (List Char)
  | '-' :: '-' :: rest => lineEnd (rest.dropWhile (!isBreak ·))
  | ch :: rest => if Js.isWhitespace ch then some rest else none
  | [] => none

def skipWith : Nat → List Char → List Char
  | 0, text => text
  | fuel + 1, text =>
    match skipOne text with
    | some rest => skipWith fuel rest
    | none => text

/-- What stands behind `(?:(?:--[^\r\n]*(?:\r?\n|$))|\s)*`. A turn takes a character at least. -/
def skip (text : List Char) : List Char := skipWith text.length text

/-! ## The envelope -/

/-- What stands behind a word. -/
def strip? (word text : List Char) : Option (List Char) :=
  if word.isPrefixOf text then some (text.drop word.length) else none

/-- The first expression: the key, and what stands behind the match. -/
def envelope? (text : List Char) : Option (List Char × List Char) := do
  let rest ← strip? "\\restrict ".toList (skip text)
  let key := rest.takeWhile Pattern.alnum
  if key.isEmpty then none
  else
    let rest ← lineFeed (rest.dropWhile Pattern.alnum)
    return (key, rest)

/-- The second expression behind its `(?:^|\n)`. -/
def unrestricts (key text : List Char) : Bool :=
  match strip? ("\\unrestrict ".toList ++ key) text with
  | none => false
  | some rest =>
    match lineFeed rest with
    | none => false
    | some rest => (skip rest).isEmpty

/-- The second expression at an index. -/
def footerAt (key text : List Char) (index : Nat) : Bool :=
  (index == 0 && unrestricts key text) ||
    match text.drop index with
    | '\n' :: rest => unrestricts key rest
    | _ => false

/-- `footer.index`, of the first match. -/
def footer? (key text : List Char) : Option Nat :=
  (List.range (text.length + 1)).find? (footerAt key text)

/-! ## The input -/

/-- What is streamed: the new key's line, the bytes, and a newline. -/
def protectedInput (key : String) (bytes : Bytes) : Bytes :=
  bytesOf "\\restrict " ++ bytesOf key ++ [0x0A] ++ bytes ++ [0x0A]

/-- The bytes that `createReadStream({ start, end })` reads; `stop` is `end + 1`. -/
def readRange (file : Bytes) (start stop : Nat) : Bytes := (file.take stop).drop start

/-- `key` is the fresh random key. -/
def postgresRecoveryInput (key : String) (file : Bytes) : Except ImportFailure Bytes :=
  let head := lossy (file.take windowSize)
  match envelope? head with
  | none => .ok (protectedInput key (readRange file 0 file.length))
  | some (archived, rest) =>
    let start := (encode (head.take (head.length - rest.length))).length
    let tailPosition := max start (file.length - windowSize)
    if tailPosition > file.length then .error .outOfRange
    else
      let tail := lossy (file.drop tailPosition)
      match footer? archived tail with
      | none => .error .databaseImportFailed
      | some index =>
        let stop := tailPosition + (encode (tail.take index)).length
        .ok (protectedInput key (readRange file start stop))

end Pluton.RecoveryImport
