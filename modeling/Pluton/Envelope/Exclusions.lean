-- SUMMARY: Backup exclusions, which server and agent read with the same code.
import Pluton.Ends
import Pluton.Json

/-!
# Backup exclusions

`backupExclusions.ts`, of which both packages hold a copy. `letter` says which
characters are in `[\p{L}\p{N}]`.
-/
namespace Pluton.Envelope

open Except

/-- Control characters, and DEL. -/
def unsafeControls (value : String) : Bool :=
  value.toList.any fun ch => ch.toNat < 32 || ch.toNat == 127

/-- `pattern.replace(/\/$/, "")` -/
def stripSlash (pattern : String) : String :=
  if Js.endsWith "/" pattern then String.ofList pattern.toList.dropLast else pattern

/-- `parts` without the `**` at its end; one part is kept. -/
def dropRecursive (parts : List String) : List String :=
  match parts with
  | [] => []
  | first :: rest => first :: (rest.reverse.dropWhile (· == "**")).reverse

def partPattern (letter : Char → Bool) (part : String) : Bool :=
  !part.isEmpty && part.toList.all fun ch =>
    letter ch || ['.', '_', ' ', '*', '?', '+', '-'].contains ch

/-- What a pattern may not be, apart from the sizes. -/
def unsafePattern (letter : Char → Bool) (pattern : String) : Bool :=
  let parts := Js.split '/' pattern
  pattern.isEmpty || decide (((dropRecursive parts).filter (· == "**")).length > 1) ||
    parts.any fun part =>
      part == "." || part == ".." || !partPattern letter part ||
        (decide (['*', '*'] <:+: part.toList) && part != "**")

def invalidPattern (index : Nat) : String :=
  "Invalid Backup Exclusions pattern " ++ toString (index + 1) ++
    ". Use relative paths, *, ?, and at most one whole-component recursive ** (optional trailing /**)."

/-- One item, after patterns of `units` code units in all. -/
def readPattern (letter : Char → Bool) (done : Nat × List String) (entry : Json × Nat) :
    Except String (Nat × List String) :=
  match entry.1 with
  | .str item =>
      if unsafeControls item then .error "Invalid Backup Exclusions."
      else
        let pattern := stripSlash (Js.trim item)
        let units := done.1 + Js.length pattern
        if unsafePattern letter pattern || 512 < Js.length pattern || 16384 < units then
          .error (invalidPattern entry.2)
        else .ok (units, done.2 ++ [pattern])
  | _ => .error "Invalid Backup Exclusions."

def parseBackupExclusions (letter : Char → Bool) : Option Json → Except String (List String)
  | some (.arr items) =>
      if 100 < items.length then .error "Backup Exclusions must contain at most 100 patterns."
      else (items.zipIdx.foldlM (readPattern letter) (0, [])).map fun done => done.2.eraseDups
  | _ => .error "Backup Exclusions must contain at most 100 patterns."

/-- The pattern under the source. -/
def anchored (source pattern : String) : String :=
  let parts := Js.split '/' (if Js.includes '/' pattern then pattern else "**/" ++ pattern)
  stripSlash source ++ "/" ++ "/".intercalate (dropRecursive parts)

def sourceResticExclusions (letter : Char → Bool) (source : String) (patterns : List String) :
    Except String (List String) := do
  refuseIf (!Js.startsWith "/" source || unsafeControls source ||
      ['*', '?', '[', ']', '\\'].any (fun ch => Js.includes ch source) ||
      (Js.split '/' source).contains "..")
    "The source path cannot be safely anchored for Backup Exclusions."
  let parsed ← parseBackupExclusions letter (some (Json.texts patterns))
  return parsed.map (anchored source)

theorem sourceResticExclusions_cases {letter : Char → Bool} {source : String}
    {patterns result : List String}
    (h : sourceResticExclusions letter source patterns = .ok result) :
    ∃ parsed, parseBackupExclusions letter (some (Json.texts patterns)) = .ok parsed := by
  unfold sourceResticExclusions at h
  simp only [bind_eq_ok] at h
  obtain ⟨_, -, parsed, hparsed, -⟩ := h
  exact ⟨parsed, hparsed⟩

end Pluton.Envelope
