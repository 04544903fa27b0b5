-- SUMMARY: `ManagedExportProof`: the batched record of what an export has seen and appended.
import Pluton.Ends
import Pluton.Tar.Field

/-!
# The export proof

`backend/src/utils/restic/ManagedExportProof.ts`. A proof writes to a database that it
shares with the other proofs of its index; rows are kept back in memory and written in
batches. Every operation that throws leaves the proof as it is in the `Refusal`, since
the proof outlives the run that failed.
-/
namespace Pluton.Tar

/-! ## Data -/

structure ManagedExportBinding where
  backupId : String
  repositoryId : String
  snapshotId : String
  deriving DecidableEq

abbrev ManagedExportCounts := List (NodeType × Nat)

structure ManagedExportSummary where
  binding : ManagedExportBinding
  mode : ManagedExportMode
  includedEntries : Nat
  excludedEntries : Nat
  includedByType : ManagedExportCounts
  excludedByType : ManagedExportCounts
  manifestSha256 : String
  archiveSha256 : String
  archiveBytes : Nat
  deriving DecidableEq

/-- The private database: `export_entries` by path, `export_proofs` by mode and
`export_seen` by cursor and path. -/
structure ProofDb where
  entries : List ManagedExportEntry
  proofs : List ManagedExportSummary
  seen : List (String × String)
  deriving DecidableEq

/-- What the code takes from outside: the hexadecimal SHA-256, the bytes that `tar.pack`
makes of the entries it was given, and whether a database has outgrown its page limit. -/
structure Platform where
  sha256 : Bytes → String
  pack : List (PackedHeader × Bytes) → Bytes
  full : ProofDb → Bool

structure ManagedExportProof where
  db : ProofDb
  binding : ManagedExportBinding
  mode : ManagedExportMode
  counts : ManagedExportCounts
  pending : List ManagedExportEntry
  pendingBytes : Nat
  cursors : List (String × List String)
  deriving DecidableEq

/-- A failure and the proof it leaves behind. -/
structure Refusal where
  failure : Failure
  proof : ManagedExportProof
  deriving DecidableEq

/-- `index.exportProof(binding, mode)` over the index's database. -/
def ManagedSnapshotIndex.exportProof (index : ManagedSnapshotIndex) (db : ProofDb)
    (binding : ManagedExportBinding) (mode : ManagedExportMode) : ManagedExportProof :=
  { db, binding, mode, counts := index.typeCounts, pending := [], pendingBytes := 0, cursors := [] }

namespace ManagedExportProof

/-- Throws with the proof as it is. -/
def refuse {α : Type} (p : ManagedExportProof) (reason : ManagedExportFailure) : Except Refusal α :=
  .error ⟨.refused reason, p⟩

/-- Runs a check that does not touch the proof. -/
def attempt {α : Type} (p : ManagedExportProof) (x : Except Failure α) : Except Refusal α :=
  x.mapError fun failure => ⟨failure, p⟩

theorem attempt_ends {α : Type} {P : α → Prop} {E : Refusal → Prop} {p : ManagedExportProof}
    {x : Except Failure α} (h : ∀ a, x = .ok a → P a) (hE : ∀ failure, E ⟨failure, p⟩) :
    (p.attempt x).Ends P E :=
  Except.ends_mapError h hE

theorem attempt_bind_ends {α β : Type} {R : β → Prop} {E : Refusal → Prop} {p : ManagedExportProof}
    {x : Except Failure α} {f : α → Except Refusal β} (hf : ∀ a, x = .ok a → (f a).Ends R E)
    (hE : ∀ failure, E ⟨failure, p⟩) : (p.attempt x >>= f).Ends R E :=
  (attempt_ends (fun _ h => h) hE).bind hf

/-! ## Summaries and cursors -/

def summary (p : ManagedExportProof) : Option ManagedExportSummary :=
  (p.db.proofs.find? (·.mode == p.mode)).filter (·.binding == p.binding)

def reset (p : ManagedExportProof) : Except Refusal ManagedExportProof :=
  -- completed proofs are immutable
  if p.summary.isSome then p.refuse .exportProofMissing
  else .ok { p with db := { p.db with proofs := p.db.proofs.filter (·.mode != p.mode) } }

/-- The cursor is drawn at random. -/
def createCursor (p : ManagedExportProof) (cursor : String) : ManagedExportProof :=
  { p with cursors := Js.mapSet p.cursors cursor [] }

def releaseCursor (p : ManagedExportProof) (cursor : String) : ManagedExportProof :=
  { p with
    cursors := p.cursors.filter (·.1 != cursor)
    db := { p.db with seen := p.db.seen.filter (·.1 != cursor) } }

/-- The paths that a cursor has not written yet. -/
def cursorPaths (p : ManagedExportProof) (cursor : String) : List String :=
  (p.cursors.lookup cursor).getD []

/-! ## Batches -/

inductive SqliteError where
  | full
  | constraint

section
variable (env : Platform)

def insertEntry (db : ProofDb) (entry : ManagedExportEntry) : Except SqliteError ProofDb :=
  let next := { db with entries := db.entries ++ [entry] }
  if db.entries.any (·.path == entry.path) then .error .constraint
  else if env.full next then .error .full
  else .ok next

def insertSeen (db : ProofDb) (row : String × String) : Except SqliteError ProofDb :=
  let next := { db with seen := db.seen ++ [row] }
  if db.seen.contains row then .error .constraint
  else if env.full next then .error .full
  else .ok next

/-- The rows of `export_seen` that wait in memory. -/
def seenRows (p : ManagedExportProof) : List (String × String) :=
  p.cursors.flatMap fun (cursor, paths) => paths.map (cursor, ·)

/-- One transaction; when an insert fails, nothing of it is kept. -/
def flush (p : ManagedExportProof) : Except Refusal ManagedExportProof :=
  match p.pending.foldlM (insertEntry env) p.db >>= p.seenRows.foldlM (insertSeen env) with
  | .ok db =>
    .ok { p with db, pending := [], pendingBytes := 0,
                 cursors := p.cursors.map fun (c, _) => (c, []) }
  | .error .full => p.refuse .exportResourceLimit
  | .error .constraint => p.refuse .archiveEntryMismatch

def seen (p : ManagedExportProof) (cursor filePath : String) : Except Refusal ManagedExportProof :=
  let paths := p.cursorPaths cursor
  if paths.contains filePath || p.db.seen.contains (cursor, filePath) then
    p.refuse .archiveEntryMismatch
  else
    let added := { p with cursors := Js.mapSet p.cursors cursor (paths ++ [filePath]) }
    if paths.length + 1 ≥ 256 then added.flush env else .ok added

/-- The entry of a path, in memory or in the database. -/
def lookup (p : ManagedExportProof) (filePath : String) : Option ManagedExportEntry :=
  (p.pending.find? (·.path == filePath)).or (p.db.entries.find? (·.path == filePath))

def get (p : ManagedExportProof) (filePath : String) : Option ManagedExportEntry :=
  (p.lookup filePath).filter fun entry => exportIncludes p.mode entry.type

def append (p : ManagedExportProof) (entry : ManagedExportEntry) :
    Except Refusal ManagedExportProof :=
  match p.lookup entry.path with
  | some existing => if existing != entry then p.refuse .archiveContentMismatch else .ok p
  | none =>
    let added :=
      { p with
        pending := p.pending ++ [entry]
        pendingBytes := p.pendingBytes + Js.byteLength (Js.stringify entry.fields) }
    if added.pending.length ≥ 256 || added.pendingBytes ≥ 1024 * 1024 then added.flush env
    else .ok added

/-! ## Completion -/

/-- The rows of `entries()`, once everything is flushed. -/
def entries (p : ManagedExportProof) : List ManagedExportEntry :=
  (p.db.entries.insertionSort fun a b => a.path.toList ≤ b.path.toList).filter
    fun entry => exportIncludes p.mode entry.type

def includedByType (p : ManagedExportProof) : ManagedExportCounts :=
  p.counts.filter fun (type, _) => exportIncludes p.mode type

def excludedByType (p : ManagedExportProof) : ManagedExportCounts :=
  p.counts.filter fun (type, _) => !exportIncludes p.mode type

def validateCompleteness (p : ManagedExportProof) : Except Refusal ManagedExportProof := do
  let p ← p.flush env
  p.entries.forM fun entry =>
    if entry.type == .symlink then p.attempt (assertManagedLinkGraph entry p.get) else pure ()
  if p.includedByType.any fun (type, n) => p.entries.countP (·.type == type) != n then
    p.refuse .archiveIncomplete
  else return p

def countsText (counts : ManagedExportCounts) : String :=
  Js.stringify (counts.map fun (type, n) => (type.text, toString n))

def modeText : ManagedExportMode → String
  | .full => "full"
  | .regularFiles => "regular-files"

def bindingText (b : ManagedExportBinding) : String :=
  Js.stringify [("backupId", Js.quote b.backupId), ("repositoryId", Js.quote b.repositoryId),
    ("snapshotId", Js.quote b.snapshotId)]

def manifestLines (p : ManagedExportProof) : List String :=
  [Js.stringify [("version", "1"), ("binding", bindingText p.binding),
    ("mode", Js.quote (modeText p.mode))]] ++
  p.entries.map (fun entry => Js.stringify (entry.fields ++ [("path", Js.quote entry.path)])) ++
  [Js.stringify [("includedByType", countsText p.includedByType),
    ("excludedByType", countsText p.excludedByType)]]

/-- The bytes that are hashed as the manifest. -/
def manifest (p : ManagedExportProof) : Bytes :=
  p.manifestLines.flatMap fun line => (line ++ "\n").toUTF8.data.toList

def total (counts : ManagedExportCounts) : Nat := (counts.map (·.2)).sum

def finish (p : ManagedExportProof) (archiveSha256 : String) (archiveBytes : Nat) :
    Except Refusal (ManagedExportSummary × ManagedExportProof) := do
  let p ← p.validateCompleteness env
  let p ← p.flush env
  let summary : ManagedExportSummary :=
    { binding := p.binding
      mode := p.mode
      includedEntries := total p.includedByType
      excludedEntries := total p.excludedByType
      includedByType := p.includedByType
      excludedByType := p.excludedByType
      manifestSha256 := env.sha256 p.manifest
      archiveSha256
      archiveBytes }
  let db := { p.db with proofs := p.db.proofs.filter (·.mode != p.mode) ++ [summary] }
  if env.full db then p.refuse .exportResourceLimit
  else return (summary, { p with db })

end

end ManagedExportProof

end Pluton.Tar
