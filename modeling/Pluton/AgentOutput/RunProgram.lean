-- SUMMARY: The output of a program that the agent runs: texts, the line buffer, the calls.
import Pluton.Js
import Pluton.Lossy

/-!
# The output of a program

`runProgram` of the agent as far as standard output goes. Every chunk is decoded for itself. The
text goes behind what is kept for the result and behind the line buffer, both of which are
bounded, and then every ended line is taken from the buffer. A line that is a JSON object queues
a call. What `JSON.parse` reads is a parameter, and so is which calls reject.
-/
namespace Pluton.AgentOutput

/-! ## Texts -/

/-- The UTF-16 code units of a text. A bounded text can end inside a character. -/
abbrev Text := List Nat

def maxOutputBytes : Nat := 64 * 1024

/-- `"\n"` -/
def newline : Nat := 10

def appendBounded (existing chunk : Text) (limit : Nat) : Text :=
  if limit ≤ existing.length then existing else (existing ++ chunk).take limit

/-- `String(chunk)` -/
def textOf (chunk : List UInt8) : Text := Js.codeUnits (String.ofList (Utf8.lossy chunk))

/-- `!line.trim()`. No half of a surrogate pair is whitespace. -/
def blank (line : Text) : Bool := line.all fun unit => Js.isWhitespace (Char.ofNat unit)

/-! ## Lines -/

/-- What `JSON.parse` returns, as far as the code looks at it. -/
inductive Parsed (Record : Type) where
  | null
  | primitive
  | array
  | object (record : Record)

/-- The variables of the output while the program runs. The chain of promises is the list of
the objects that it calls `onJsonLine` with. -/
structure State (Record : Type) where
  stdout : Text := []
  outputBytes : Nat := 0
  stdoutBuffer : Text := []
  eventChain : List Record := []

section
variable {Record : Type} (parse : Text → Option (Parsed Record))

/-- The object that a line is. -/
def message (line : Text) : Option Record :=
  if blank line then none
  else match parse line with
    | some (.object record) => some record
    -- a line that is not JSON, and `!parsed || typeof parsed !== "object" || Array.isArray(parsed)`
    | _ => none

def consumeLine (line : Text) (s : State Record) : State Record :=
  match message parse line with
  | some record => { s with eventChain := s.eventChain ++ [record] }
  | none => s

/-- The loop over the buffer. Every turn takes a unit at least, so its length is enough fuel. -/
def drain : Nat → State Record → State Record
  | 0, s => s
  | fuel + 1, s =>
    match s.stdoutBuffer.findIdx? (· == newline) with
    | none => s
    | some index =>
      let line := s.stdoutBuffer.take index
      drain fuel (consumeLine parse line { s with stdoutBuffer := s.stdoutBuffer.drop (index + 1) })

/-- `child.stdout.on("data")`, where `limit` is `options.maxOutputBytes`. -/
def onData (limit : Option Nat) (s : State Record) (chunk : List UInt8) : State Record :=
  let text := textOf chunk
  let s :=
    { s with
      outputBytes := s.outputBytes + (Utf8.encode (Utf8.lossy chunk)).length
      stdout := appendBounded s.stdout text (limit.getD maxOutputBytes)
      stdoutBuffer := appendBounded s.stdoutBuffer text maxOutputBytes }
  drain parse s.stdoutBuffer.length s

def run (limit : Option Nat) (s : State Record) (chunks : List (List UInt8)) : State Record :=
  chunks.foldl (onData parse limit) s

/-- `child.once("close")`, up to the chain. -/
def close (s : State Record) : State Record := consumeLine parse s.stdoutBuffer s

/-- The calls that the chain makes: each waits for the one before it, and none is made after
one that rejects. -/
def calls (rejects : List Record → Record → Bool) (made : List Record) : List Record → List Record
  | [] => made
  | record :: chain =>
      if rejects made record then made ++ [record] else calls rejects (made ++ [record]) chain

/-- The calls of `onJsonLine` over a whole run. -/
def jsonCalls (rejects : List Record → Record → Bool) (limit : Option Nat)
    (chunks : List (List UInt8)) : List Record :=
  calls rejects [] (close parse (run parse limit {} chunks)).eventChain

/-- What the chain resolves to: the text that is kept, and whether it is all of it. -/
def result (limit : Option Nat) (s : State Record) : Text × Bool :=
  (s.stdout, limit.getD maxOutputBytes < s.outputBytes)

end

end Pluton.AgentOutput
