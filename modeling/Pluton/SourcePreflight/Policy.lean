-- SUMMARY: `filesystemPolicy.ts`: the checks against the allowed roots, and the bounded scan.
import Pluton.CanonicalPath
import Pluton.Exclusions.Paths

/-!
# The source preflight

The file system and the clock are given. A call of the file system fails with a code, which is
all that the checks look at.
-/
namespace Pluton.SourcePreflight

open Posix

/-! ## Failures -/

inductive SourceAccessCode where
  | sourceParentNotTraversable
  | sourceRootNotReadable
  | sourceEntryInaccessible
  | sourceMissing
  | sourceSymlinkEscape
  | sourceUnsupportedType
  | sourcePolicyViolation
  deriving DecidableEq

def SourceAccessCode.text : SourceAccessCode → String
  | .sourceParentNotTraversable => "source-parent-not-traversable"
  | .sourceRootNotReadable => "source-root-not-readable"
  | .sourceEntryInaccessible => "source-entry-inaccessible"
  | .sourceMissing => "source-missing"
  | .sourceSymlinkEscape => "source-symlink-escape"
  | .sourceUnsupportedType => "source-unsupported-type"
  | .sourcePolicyViolation => "source-policy-violation"

structure SourceAccessError where
  code : SourceAccessCode
  requestedPath : Option String
  resolvedPath : Option String
  blockedPath : Option String
  deriving DecidableEq

def SourceAccessError.message (error : SourceAccessError) : String :=
  match error.code with
  | .sourcePolicyViolation =>
      "An absolute path without traversal is required; paths outside allowed roots are refused."
  | .sourceSymlinkEscape => "Source symlink is outside allowed roots or changed during validation."
  | code => "Source access preflight failed (" ++ code.text ++ ")."

/-- What a preflight throws: a pattern that is refused, or a path. -/
inductive Failure where
  | exclusions (message : String)
  | access (error : SourceAccessError)

/-! ## The file system -/

/-- What `lstat` says of an entry. -/
inductive Kind where
  | file
  | directory
  | symlink
  | other
  deriving DecidableEq

/-- The names that `opendir` yields, and whether the reading breaks behind them. -/
structure Listing where
  names : List String
  broken : Bool

/-- What the calls answer; `access` is asked for reading and for executing. -/
structure FileSystem where
  realpath : String → Except String String
  lstat : String → Except String Kind
  readlink : String → Except String String
  access : String → (read execute : Bool) → Except String Unit
  opendir : String → Except String Listing

variable (fs : FileSystem)

/-! ## Paths -/

/-- `split(/[\\/]+/).includes("..")`; the empty parts of the list here are none of the code's. -/
def traverses (value : String) : Bool :=
  (value.toList.splitOnP fun ch => ch == '/' || ch == '\\').contains ['.', '.']

def rejectUnsafePath (value : String) : Except SourceAccessError Unit :=
  if value.isEmpty || 4096 < Js.length value ||
      (value.toList.any fun ch => ch.toNat < 32 || ch.toNat == 127) ||
      !Js.startsWith "/" value || traverses value then
    .error ⟨.sourcePolicyViolation, none, none, none⟩
  else .ok ()

def within (parent child : String) : Bool :=
  let way := relative parent child
  way == "" || (!Js.startsWith "../" way && way != ".." && !Js.startsWith "/" way)

/-- The directories on the way down `parts`, each of which has to be traversable. -/
def assertAlong (candidate requested : String) :
    String → List String → Except SourceAccessError Unit
  | _, [] => .ok ()
  | current, part :: parts =>
    let current := if part == "" then current else join current part
    match fs.access current false true with
    | .error code =>
      .error ⟨if code == "ENOENT" then .sourceMissing else .sourceParentNotTraversable,
        some requested, some candidate, some current⟩
    | .ok () => assertAlong candidate requested current parts

def assertTraversableParents (candidate requested : String) : Except SourceAccessError Unit :=
  assertAlong fs candidate requested "/"
    ("" :: (namesOf (dirname candidate)).filter (· != ""))

/-- Where a link points to, or the path itself. -/
def linkTarget (candidate : String) : String :=
  match fs.lstat candidate, fs.readlink candidate with
  | .ok .symlink, .ok link => resolveFrom (dirname candidate) link
  | _, _ => candidate

def resolveSource (candidate : String) : Except SourceAccessError String :=
  match fs.realpath candidate with
  | .ok path => .ok path
  | .error code => do
    let target := linkTarget fs candidate
    if ["EACCES", "EPERM"].contains code then
      assertTraversableParents fs target candidate
      .error ⟨.sourceRootNotReadable, some candidate, some target, some target⟩
    else .error ⟨if code == "ELOOP" then .sourceSymlinkEscape else .sourceMissing,
      some candidate, some target, none⟩

/-- The roots are resolved at once, and unsafe ones are refused before that; of several that
cannot be resolved the first one is named. -/
def resolveAllowedRoots (roots : List String) : Except SourceAccessError (List String) := do
  roots.forM rejectUnsafePath
  let resolved ← roots.mapM (resolveSource fs)
  return resolved.eraseDups

def assertPathWithinAllowedRoots (candidate : String) (roots : List String) :
    Except SourceAccessError String := do
  rejectUnsafePath candidate
  let resolvedRoots ← resolveAllowedRoots fs roots
  let resolvedCandidate ← resolveSource fs candidate
  if !resolvedRoots.any fun root => within root resolvedCandidate then
    .error ⟨if resolveFrom "/" candidate != resolvedCandidate then .sourceSymlinkEscape
      else .sourcePolicyViolation,
      some candidate, some resolvedCandidate, none⟩
  else return resolvedCandidate

/-! ## The scan -/

structure PreflightOptions where
  scan : Bool
  maxEntries : Option Nat
  deadlineMs : Option Nat
  exclusions : List String
  mandatoryExclusions : List String

inductive ScanState where
  | notRequested
  | complete
  | entryLimit
  | deadline

structure Report where
  requestedPath : String
  resolvedPath : String
  entriesChecked : Nat
  linksNotFollowed : Nat
  entriesExcluded : Nat
  scan : ScanState

/-- What stays the same over a scan. -/
structure Context where
  candidate : String
  resolved : String
  /-- Both filters, of the user and of the Agent. -/
  excluded : String → Bool
  limit : Nat
  /-- Whether the time is up when the clock is read for the `n`-th time. -/
  late : Nat → Bool

def check (candidate resolved entry : String) (root : Bool) : Except SourceAccessError Kind :=
  let inaccessible (code : String) : Except SourceAccessError Kind :=
    .error ⟨if code == "ENOENT" then .sourceMissing else if root then .sourceRootNotReadable
      else .sourceEntryInaccessible,
      some candidate, some resolved, some entry⟩
  match fs.lstat entry with
  | .error code => inaccessible code
  | .ok .symlink =>
      if root then .error ⟨.sourceSymlinkEscape, some candidate, some resolved, some entry⟩
        else .ok .symlink
  | .ok .other => .error ⟨.sourceUnsupportedType, some candidate, some resolved, some entry⟩
  | .ok kind =>
    match fs.access entry true (kind == .directory) with
    | .error code => inaccessible code
    | .ok () => .ok kind

/-- The report so far, the directories that are left, the last one first, and how often the
clock was read. -/
structure Scan where
  report : Report
  pending : List String
  ticks : Nat

/-- The scan goes on, or it returns. -/
inductive Flow where
  | on (scan : Scan)
  | returned (report : Report)

variable (ctx : Context)

/-- The path of an entry from the source; on POSIX its separators are slashes already. -/
def Context.excludes (filename : String) : Bool := ctx.excluded (relative ctx.resolved filename)

/-- What a kept entry adds to the report, and to the directories that are left. -/
def Scan.add (scan : Scan) (filename : String) (info : Kind) : Scan :=
  { scan with
    report :=
      { scan.report with
        entriesChecked := scan.report.entriesChecked + 1
        linksNotFollowed := scan.report.linksNotFollowed + if info == .symlink then 1 else 0 }
    pending := if info == .directory then filename :: scan.pending else scan.pending }

def Scan.skip (scan : Scan) : Scan :=
  { scan with report := { scan.report with entriesExcluded := scan.report.entriesExcluded + 1 } }

/-- One turn of the loop over a directory. The clock is read behind the count only. -/
def visit (directory : String) (scan : Scan) (name : String) : Except SourceAccessError Flow :=
  if ctx.limit ≤ scan.report.entriesChecked then
    .ok (.returned { scan.report with scan := .entryLimit })
  else if ctx.late scan.ticks then .ok (.returned { scan.report with scan := .deadline })
  else do
    let scan := { scan with ticks := scan.ticks + 1 }
    let filename := join directory name
    if ctx.excludes filename then return .on scan.skip
    else
      let info ← check fs ctx.candidate ctx.resolved filename false
      return .on (scan.add filename info)

def visitAll (directory : String) : List String → Scan → Except SourceAccessError Flow
  | [], scan => .ok (.on scan)
  | name :: names, scan => do
    match ← visit fs ctx directory scan name with
    | .on next => visitAll directory names next
    | .returned report => return .returned report

/-- One turn of the loop over the directories. -/
def expand (directory : String) (scan : Scan) : Except SourceAccessError Flow := do
  let real ← resolveSource fs directory
  if real != directory || !within ctx.resolved directory then
    .error ⟨.sourceSymlinkEscape, some ctx.candidate, some ctx.resolved, some directory⟩
  else
    let inaccessible : SourceAccessError :=
      ⟨.sourceEntryInaccessible, some ctx.candidate, some ctx.resolved, some directory⟩
    match fs.opendir directory with
    | .error _ => .error inaccessible
    | .ok listing => do
      match ← visitAll fs ctx directory listing.names scan with
      | .on next => if listing.broken then .error inaccessible else return .on next
      | .returned report => return .returned report

/-- The loop over the directories, for at most `fuel` turns. -/
def scanFrom : Nat → Scan → Option (Except SourceAccessError Report)
  | 0, _ => none
  | fuel + 1, scan =>
    match scan.pending with
    | [] => some (.ok scan.report)
    | directory :: pending =>
      match expand fs ctx directory { scan with pending } with
      | .error error => some (.error error)
      | .ok (.returned report) => some (.ok report)
      | .ok (.on next) => scanFrom fuel next

/-- `Math.max(1, Math.min(value || most, most))` -/
def bounded (value : Option Nat) (most : Nat) : Nat :=
  max 1 (min (match value with
    | none | some 0 => most
    | some n => n) most)

/-- What precedes the scan: the resolved source, and what it is. -/
def assertSource (candidate : String) (roots : List String) :
    Except SourceAccessError (String × Kind) := do
  let resolved ← assertPathWithinAllowedRoots fs candidate roots
  assertTraversableParents fs resolved candidate
  let kind ← check fs candidate resolved resolved true
  let again ← resolveSource fs resolved
  if again != resolved then .error ⟨.sourceSymlinkEscape, some candidate, some resolved, none⟩
  else return (resolved, kind)

/-- Both filters: an entry is excluded if one of them excludes it. -/
def filters (letter : Char → Bool) (options : PreflightOptions) : Except String (String → Bool) :=
  do
  let excluded ← Exclusions.compileBackupExclusions Exclusions.segmentMatches
      letter options.exclusions
  let mandatoryExcluded ← Exclusions.compileBackupExclusions Exclusions.segmentMatches letter
      options.mandatoryExclusions
  return fun way => excluded way || mandatoryExcluded way

/-- The clock `now` is read for the end, and then for each entry. -/
def scanContext (now : Nat → Nat) (candidate resolved : String) (excluded : String → Bool)
    (options : PreflightOptions) : Context :=
  { candidate
    resolved
    excluded
    limit := bounded options.maxEntries 10000
    late := fun n => now 0 + bounded options.deadlineMs 5000 ≤ now (n + 1) }

/-- The report before the scan. -/
def firstReport (candidate resolved : String) (options : PreflightOptions) : Report :=
  { requestedPath := candidate
    resolvedPath := resolved
    entriesChecked := 1
    linksNotFollowed := 0
    entriesExcluded := 0
    scan := if options.scan then .complete else .notRequested }

def preflightSource (now : Nat → Nat) (letter : Char → Bool) (candidate : String)
    (roots : List String) (options : PreflightOptions) :
    Option (Except Failure Report) :=
  match filters letter options with
  | .error message => some (.error (.exclusions message))
  | .ok excluded =>
    match assertSource fs candidate roots with
    | .error error => some (.error (.access error))
    | .ok (resolved, kind) =>
      let report := firstReport candidate resolved options
      if !options.scan || kind != .directory then some (.ok report)
      else
        let ctx := scanContext now candidate resolved excluded options
        (scanFrom fs ctx (ctx.limit + 1) ⟨report, [resolved], 0⟩).map fun outcome =>
          outcome.mapError .access

end Pluton.SourcePreflight
