-- SUMMARY: The comparison of two snapshots: rows of both indexes, and the diff as evidence.
import Pluton.OrderedMap
import Pluton.SnapshotIndex.Page

/-!
# Snapshot comparison

`populate` of `backend/src/utils/restic/SnapshotComparison.ts`, on a new comparison. The diff
hands its records to the callback one after the other, and a throw of the callback ends it.
That the database may be full or the signal aborted only makes `populate` fail.
-/
namespace Pluton.SnapshotIndex

open Except
open Tar (NodeType managedSnapshotPath)

/-! ## Records and rows -/

inductive SnapshotChange where
  | added
  | modified
  | unchanged
  | deleted
  deriving DecidableEq

inductive SnapshotDiffRecord where
  | change (path modifier : String)
  | statistics (sourceSnapshot targetSnapshot : String)

structure ComparisonBinding where
  currentBackupId : String
  previousBackupId : String
  currentSnapshotId : String
  previousSnapshotId : String

/-- A row of `entries` apart from its path. -/
structure ComparisonRow where
  parent : String
  name : String
  type : NodeType
  size : Nat
  modifiedAt : String
  change : SnapshotChange

/-- The tables `entries` and `observed`, by their primary keys. -/
structure ComparisonTables where
  entries : OrderedMap ComparisonRow
  observed : OrderedMap String

/-- `COMPARISON_LIMITS.maxEntries` -/
def comparisonMaxEntries : Nat := 1000000

def entryLimit : PageError := ⟨413, "Snapshot comparison entry limit reached."⟩

/-- The refusals of evidence. -/
def evidence (message : String) : PageError := ⟨422, message⟩

def identityMismatch : PageError := ⟨409, "Snapshot comparison identity mismatch."⟩

def unsafeSnapshotPath : PageError :=
  ⟨400, "Snapshot path must be an exact safe absolute POSIX path."⟩

/-! ## The rows of the indexes -/

/-- `SELECT * FROM nodes ORDER BY path` -/
def Manifest.iterator (manifest : Manifest) : List SnapShotFile :=
  (manifest.rows.insertionSort fun row other => row.path.toList ≤ other.path.toList).map asFile

/-- `path.slice(0, path.lastIndexOf('/'))`, for a path with a slash. -/
def parentText (path : String) : String :=
  String.ofList ((path.toList.reverse.dropWhile (· != '/')).drop 1).reverse

/-- The row of a file. -/
def comparisonRow (change : SnapshotChange) (file : SnapShotFile) : String × ComparisonRow :=
  (file.path, ⟨parentText file.path, file.name, file.type, file.size, file.modifiedAt, change⟩)

/-- `INSERT INTO entries VALUES(...) ON CONFLICT(path) DO UPDATE SET change='unchanged'` -/
def upsert (entries : OrderedMap ComparisonRow) (row : String × ComparisonRow) :
    OrderedMap ComparisonRow :=
  match entries.get row.1 with
  | none => entries.set row.1 row.2
  | some held => entries.set row.1 { held with change := .unchanged }

/-- The variables while an index is read. -/
structure Filling where
  entries : OrderedMap ComparisonRow
  batch : List (String × ComparisonRow)
  processedEntries : Nat

def Filling.flush (s : Filling) : Filling :=
  { s with entries := s.batch.foldl upsert s.entries, batch := [] }

def fillFile (change : SnapshotChange) (s : Filling) (file : SnapShotFile) :
    Except PageError Filling := do
  refuseIf (s.processedEntries + 1 > comparisonMaxEntries) entryLimit
  let s :=
    { s with processedEntries := s.processedEntries + 1,
             batch := s.batch ++ [comparisonRow change file] }
  return if s.batch.length == 512 then s.flush else s

/-- One index is read in batches. -/
def fill (s : Filling) (index : Manifest × SnapshotChange) : Except PageError Filling := do
  let s ← index.1.iterator.foldlM (fillFile index.2) { s with batch := [] }
  return s.flush

/-! ## The evidence -/

/-- The variables of the callback. -/
structure Evidence where
  tables : ComparisonTables
  summary : Bool
  changes : Nat

/-- `/^[+\-TMU]+$/` -/
def isModifier (modifier : String) : Bool :=
  modifier != "" && modifier.toList.all (['+', '-', 'T', 'M', 'U'].contains ·)

/-- The path of a record without the slash that decorates a directory. -/
def exactPath (path : String) : String :=
  if Js.endsWith "/" path then String.ofList path.toList.dropLast else path

def ComparisonTables.observe (tables : ComparisonTables) (path modifier : String)
    (row : ComparisonRow) : ComparisonTables where
  entries :=
    if row.change == .unchanged then tables.entries.set path { row with change := .modified }
      else tables.entries
  observed := tables.observed.set path modifier

section
variable (binding : ComparisonBinding) (previous : Manifest)

/-- A change that the diff reports. -/
def consumeChange (s : Evidence) (path modifier : String) : Except PageError Evidence := do
  let exact := exactPath path
  let _ ← (managedSnapshotPath exact).mapError fun _ => unsafeSnapshotPath
  refuseIf (s.changes + 1 > comparisonMaxEntries || !isModifier modifier)
    (evidence "Unsupported snapshot comparison evidence.")
  let row := s.tables.entries.get exact
  refuseIf (Js.endsWith "/" path && row.map (·.type) != some .dir &&
    (previous.get exact).map (·.type) != some .dir)
    (evidence "Directory comparison evidence does not match indexed metadata.")
  match row with
  | none => .error (evidence "Snapshot comparison disagrees with indexed paths.")
  | some row =>
    refuseIf ((modifier == "+" && row.change != .added) ||
      (modifier == "-" && row.change != .deleted))
      (evidence "Snapshot comparison disagrees with indexed paths.")
    refuseIf (s.tables.observed.get exact).isSome
      (evidence "Duplicate snapshot comparison evidence.")
    return ⟨s.tables.observe exact modifier row, s.summary, s.changes + 1⟩

/-- The callback that is given to the diff. -/
def consume (s : Evidence) (record : SnapshotDiffRecord) : Except PageError Evidence := do
  refuseIf s.summary (evidence "Incomplete or ambiguous snapshot comparison.")
  match record with
  | .statistics source target =>
    refuseIf (source != binding.previousSnapshotId ||
      target != binding.currentSnapshotId) identityMismatch
    return { s with summary := true }
  | .change path modifier => consumeChange previous s path modifier

/-- An added or deleted path that no record was about. -/
def ComparisonTables.incomplete (tables : ComparisonTables) : Bool :=
  tables.entries.entries.any fun (path, row) =>
    (row.change == .added || row.change == .deleted) && (tables.observed.get path).isNone

/-- The tables when the comparison is ready. -/
def populate (current : Manifest) (records : List SnapshotDiffRecord) :
    Except PageError ComparisonTables := do
  let s ← [(current, SnapshotChange.added), (previous, .deleted)].foldlM fill ⟨.empty, [], 0⟩
  let s ← records.foldlM (consume binding previous) ⟨⟨s.entries, .empty⟩, false, 0⟩
  refuseIf (!s.summary || s.tables.incomplete) (evidence "Incomplete snapshot comparison evidence.")
  return s.tables

end

/-! ## What the indexes say of a path -/

/-- The paths of an index. -/
def Manifest.paths (manifest : Manifest) : List String := manifest.rows.map (·.path)

/-- The change of a path before the evidence. -/
def indexed (current previous : Manifest) (path : String) : Option SnapshotChange :=
  if path ∈ current.paths then some (if path ∈ previous.paths then .unchanged else .added)
  else if path ∈ previous.paths then some .deleted else none

section
variable {current previous : Manifest} {path : String}

theorem isSome_indexed : (indexed current previous path).isSome = true ↔
    path ∈ current.paths ∨ path ∈ previous.paths := by
  by_cases hcurrent : path ∈ current.paths <;> by_cases hprevious : path ∈ previous.paths <;>
    simp [indexed, hcurrent, hprevious]

theorem indexed_eq_added : indexed current previous path = some .added ↔
    path ∈ current.paths ∧ path ∉ previous.paths := by
  by_cases hcurrent : path ∈ current.paths <;> by_cases hprevious : path ∈ previous.paths <;>
    simp [indexed, hcurrent, hprevious]

theorem indexed_eq_deleted : indexed current previous path = some .deleted ↔
    path ∉ current.paths ∧ path ∈ previous.paths := by
  by_cases hcurrent : path ∈ current.paths <;> by_cases hprevious : path ∈ previous.paths <;>
    simp [indexed, hcurrent, hprevious]

theorem indexed_eq_unchanged : indexed current previous path = some .unchanged ↔
    path ∈ current.paths ∧ path ∈ previous.paths := by
  by_cases hcurrent : path ∈ current.paths <;> by_cases hprevious : path ∈ previous.paths <;>
    simp [indexed, hcurrent, hprevious]

theorem indexed_ne_modified : indexed current previous path ≠ some .modified := by
  by_cases hcurrent : path ∈ current.paths <;> by_cases hprevious : path ∈ previous.paths <;>
    simp [indexed, hcurrent, hprevious]

end

section
variable {binding : ComparisonBinding} {current previous manifest : Manifest}
  {change : SnapshotChange} {path : String} {entries : OrderedMap ComparisonRow}
  {rows : List (String × ComparisonRow)} {s s' : Filling} {files : List SnapShotFile}

theorem iterator_perm : manifest.iterator.Perm (manifest.rows.map asFile) :=
  (List.perm_insertionSort _ _).map asFile

theorem map_path_iterator : (manifest.iterator.map (·.path)).Perm manifest.paths := by
  have hperm : (manifest.iterator.map (·.path)).Perm ((manifest.rows.map asFile).map (·.path)) :=
    iterator_perm.map _
  rwa [List.map_map] at hperm

/-- The change of the row of a path. -/
def changeOf (entries : OrderedMap ComparisonRow) (path : String) : Option SnapshotChange :=
  (entries.get path).map (·.change)

theorem changeOf_upsert {row : String × ComparisonRow} : changeOf (upsert entries row) path =
    if path = row.1 then some (if (changeOf entries path).isSome then .unchanged else row.2.change)
      else changeOf entries path := by
  unfold upsert changeOf
  cases hget : entries.get row.1 with
  | none =>
      rw [OrderedMap.get_set]
      split
      next h => simp [h, hget]
      next => rfl
  | some held =>
      rw [OrderedMap.get_set]
      split
      next h => simp [h, hget]
      next => rfl

/-- Rows of different paths, all with the same change. -/
theorem changeOf_foldl_upsert (hnodup : (rows.map (·.1)).Nodup)
    (hchange : ∀ row ∈ rows, row.2.change = change) :
    changeOf (rows.foldl upsert entries) path =
      if path ∈ rows.map (·.1) then
        some (if (changeOf entries path).isSome then .unchanged else change)
      else changeOf entries path := by
  induction rows generalizing entries with
  | nil => simp
  | cons row rows ih =>
      rw [List.map_cons, List.nodup_cons] at hnodup
      obtain ⟨hrow, hrows⟩ := List.forall_mem_cons.mp hchange
      rw [List.foldl_cons, ih hnodup.2 hrows, changeOf_upsert, List.map_cons]
      by_cases hpath : path = row.1
      · subst hpath
        rw [if_neg hnodup.1, if_pos rfl, if_pos List.mem_cons_self, hrow]
      · rw [if_neg hpath]
        simp only [List.mem_cons, hpath, false_or]

/-! ## Reading the indexes -/

theorem foldlM_fillFile (h : files.foldlM (fillFile change) s = .ok s') :
    s'.flush.entries = (files.map (comparisonRow change)).foldl upsert s.flush.entries := by
  induction files generalizing s with
  | nil =>
      obtain rfl := pure_eq_ok.mp h
      rfl
  | cons file files ih =>
      rw [List.foldlM_cons, bind_eq_ok] at h
      obtain ⟨next, hnext, hrest⟩ := h
      unfold fillFile at hnext
      simp only [bind_eq_ok, refuseIf_eq_ok, pure_eq_ok, exists_const] at hnext
      obtain ⟨-, rfl⟩ := hnext
      rw [ih hrest, List.map_cons, List.foldl_cons]
      congr 1
      split
      · simp [Filling.flush]
      · simp [Filling.flush]

theorem fill_entries (h : fill s (manifest, change) = .ok s') :
    s'.entries = (manifest.iterator.map (comparisonRow change)).foldl upsert s.entries := by
  unfold fill at h
  simp only [bind_eq_ok, pure_eq_ok] at h
  obtain ⟨last, hlast, rfl⟩ := h
  exact foldlM_fillFile hlast

theorem changeOf_fill (h : fill s (manifest, change) = .ok s') : changeOf s'.entries path =
    if path ∈ manifest.paths then
      some (if (changeOf s.entries path).isSome then .unchanged else change)
    else changeOf s.entries path := by
  have hpaths : (manifest.iterator.map (comparisonRow change)).map (·.1) =
      manifest.iterator.map (·.path) := by
    rw [List.map_map]
    rfl
  have hnodup : ((manifest.iterator.map (comparisonRow change)).map (·.1)).Nodup :=
    hpaths ▸ map_path_iterator.nodup_iff.mpr manifest.nodup
  have hchange : ∀ row ∈ manifest.iterator.map (comparisonRow change), row.2.change = change := by
    intro row hrow
    obtain ⟨file, -, rfl⟩ := List.mem_map.mp hrow
    rfl
  rw [fill_entries h, changeOf_foldl_upsert hnodup hchange, hpaths]
  simp only [map_path_iterator.mem_iff]

theorem changeOf_fills
    (h : [(current, SnapshotChange.added), (previous, .deleted)].foldlM fill
      ⟨.empty, [], 0⟩ = .ok s') :
    changeOf s'.entries path = indexed current previous path := by
  simp only [List.foldlM_cons, List.foldlM_nil, bind_eq_ok, pure_eq_ok] at h
  obtain ⟨first, hfirst, second, hsecond, rfl⟩ := h
  have hempty : changeOf (OrderedMap.empty : OrderedMap ComparisonRow) path = none := rfl
  rw [changeOf_fill hsecond, changeOf_fill hfirst, hempty, indexed]
  by_cases hcurrent : path ∈ current.paths <;> by_cases hprevious : path ∈ previous.paths <;>
    simp [hcurrent, hprevious]

/-! ## The evidence so far -/

variable {seen : List (String × String)} {e e' : Evidence} {kind : String → Option SnapshotChange}
  {modifier : String} {records : List SnapshotDiffRecord} {tables : ComparisonTables}

/-- The paths of some changes. -/
def seenPaths (seen : List (String × String)) : List String :=
  seen.map fun change => exactPath change.1

/-- What the callback knows after some changes; `kind` is what the indexes say of a path. -/
structure Weighed (kind : String → Option SnapshotChange) (seen : List (String × String))
    (e : Evidence) : Prop where
  entries : ∀ path, changeOf e.tables.entries path =
    (kind path).map fun change =>
      if change = .unchanged ∧ path ∈ seenPaths seen then .modified else change
  observed : ∀ path, (e.tables.observed.get path).isSome = true ↔ path ∈ seenPaths seen
  nodup : (seenPaths seen).Nodup
  agrees : ∀ change ∈ seen, ∃ indexed, kind (exactPath change.1) = some indexed ∧
    (change.2 = "+" → indexed = .added) ∧ (change.2 = "-" → indexed = .deleted)

/-- An accepted change is one more that was weighed. -/
theorem consumeChange_weighed (h : Weighed kind seen e)
    (hchange : consumeChange previous e path modifier = .ok e') :
    Weighed kind (seen ++ [(path, modifier)]) e' ∧ e'.summary = e.summary := by
  unfold consumeChange at hchange
  simp only [bind_eq_ok, refuseIf_eq_ok, exists_const] at hchange
  obtain ⟨-, -, -, -, hmatch⟩ := hchange
  cases hrow : e.tables.entries.get (exactPath path) with
  | none =>
      rw [hrow] at hmatch
      cases hmatch
  | some row =>
      rw [hrow] at hmatch
      simp only [bind_eq_ok, refuseIf_eq_ok, pure_eq_ok, exists_const, Bool.or_eq_false_iff,
        Bool.and_eq_false_iff, beq_eq_false_iff_ne, bne_eq_false_iff_eq] at hmatch
      obtain ⟨⟨hplus, hminus⟩, hfresh, rfl⟩ := hmatch
      have hnew : exactPath path ∉ seenPaths seen := fun hmem => by
        rw [(h.observed _).mpr hmem] at hfresh
        cases hfresh
      have hpaths : seenPaths (seen ++ [(path, modifier)]) = seenPaths seen ++ [exactPath path] :=
        List.map_append
      -- the row's change is what the indexes say, as no record was about the path
      have hkind : kind (exactPath path) = some row.change := by
        have hentry := h.entries (exactPath path)
        rw [changeOf, hrow, Option.map_some] at hentry
        simpa [hnew] using hentry.symm
      refine ⟨⟨fun other => ?_, fun other => ?_, ?_, ?_⟩, rfl⟩
      · have hother : changeOf (e.tables.observe (exactPath path) modifier row).entries other =
            if other = exactPath path ∧ row.change = .unchanged then some .modified
              else changeOf e.tables.entries other := by
          unfold ComparisonTables.observe changeOf
          by_cases hunchanged : row.change = .unchanged
          · rw [if_pos (by simp [hunchanged]), OrderedMap.get_set]
            by_cases hsame : other = exactPath path
            · simp [hsame, hunchanged]
            · simp [hsame]
          · simp [hunchanged]
        rw [hother, h.entries, hpaths]
        by_cases hsame : other = exactPath path
        · subst hsame
          rw [hkind]
          by_cases hunchanged : row.change = .unchanged <;> simp [hunchanged, hnew]
        · simp [hsame]
      · show ((e.tables.observed.set (exactPath path) modifier).get other).isSome = true ↔ _
        rw [OrderedMap.get_set, hpaths, List.mem_append, List.mem_singleton, ← h.observed]
        by_cases hsame : other = exactPath path <;> simp [hsame]
      · rw [hpaths]
        exact List.nodup_append.mpr ⟨h.nodup, List.nodup_singleton _, fun x hx y hy heq =>
          hnew (List.mem_singleton.mp hy ▸ heq ▸ hx)⟩
      · intro change hmem
        rcases List.mem_append.mp hmem with hmem | hmem
        · exact h.agrees change hmem
        · rw [List.mem_singleton.mp hmem]
          exact ⟨row.change, hkind, fun heq => hplus.resolve_left (not_not_intro heq),
            fun heq => hminus.resolve_left (not_not_intro heq)⟩

/-- The records that end with the statistics of the compared snapshots. -/
def completeRecords (binding : ComparisonBinding) (changes : List (String × String)) :
    List SnapshotDiffRecord :=
  (changes.map fun change => .change change.1 change.2) ++
    [.statistics binding.previousSnapshotId binding.currentSnapshotId]

/-- Once the statistics came, no record is accepted. -/
theorem consume_after_summary (hsummary : e.summary = true)
    (h : records.foldlM (consume binding previous) e = .ok e') :
    records = [] ∧ e' = e := by
  cases records with
  | nil => exact ⟨rfl, (pure_eq_ok.mp h).symm⟩
  | cons record records =>
      rw [List.foldlM_cons, bind_eq_ok] at h
      obtain ⟨next, hnext, -⟩ := h
      unfold consume at hnext
      rw [hsummary] at hnext
      cases hnext

/-- The records up to the statistics are changes, each weighed. -/
theorem consume_weighed (h : Weighed kind seen e) (hsummary : e.summary = false)
    (hrun : records.foldlM (consume binding previous) e = .ok e') (hended : e'.summary = true) :
    ∃ changes, records = completeRecords binding changes ∧ Weighed kind (seen ++ changes) e' := by
  induction records generalizing seen e with
  | nil =>
      obtain rfl := pure_eq_ok.mp hrun
      rw [hsummary] at hended
      cases hended
  | cons record records ih =>
      rw [List.foldlM_cons, bind_eq_ok] at hrun
      obtain ⟨next, hnext, hrest⟩ := hrun
      unfold consume at hnext
      simp only [hsummary, bind_eq_ok, refuseIf_eq_ok, exists_const, true_and] at hnext
      cases record with
      | statistics source target =>
          simp only [bind_eq_ok, refuseIf_eq_ok, pure_eq_ok, exists_const, Bool.or_eq_false_iff,
            bne_eq_false_iff_eq] at hnext
          obtain ⟨⟨rfl, rfl⟩, rfl⟩ := hnext
          obtain ⟨rfl, rfl⟩ := consume_after_summary rfl hrest
          refine ⟨[], rfl, ?_⟩
          rw [List.append_nil]
          exact ⟨h.entries, h.observed, h.nodup, h.agrees⟩
      | change path modifier =>
          obtain ⟨hweighed, hsame⟩ := consumeChange_weighed h hnext
          obtain ⟨changes, rfl, hlast⟩ := ih hweighed (hsame.trans hsummary) hrest
          refine ⟨(path, modifier) :: changes, rfl, ?_⟩
          rwa [← List.append_cons] at hlast

/-! ## The classification -/

/-- A record is about a path. -/
def about (path : String) : SnapshotDiffRecord → Bool
  | .change other _ => exactPath other == path
  | .statistics _ _ => false

theorem countP_about {changes : List (String × String)} :
    (completeRecords binding changes).countP (about path) = (seenPaths changes).count path := by
  rw [completeRecords, List.countP_append, List.countP_map, List.countP_singleton, seenPaths,
    List.count, List.countP_map]
  rfl

theorem mem_completeRecords {changes : List (String × String)} :
    .change path modifier ∈ completeRecords binding changes ↔
    (path, modifier) ∈ changes := by
  rw [completeRecords, List.mem_append, List.mem_map]
  constructor
  · rintro (⟨change, hmem, heq⟩ | hlast)
    · obtain ⟨rfl, rfl⟩ := SnapshotDiffRecord.change.inj heq
      exact hmem
    · cases List.mem_singleton.mp hlast
  · exact fun hmem => .inl ⟨_, hmem, rfl⟩

/-! What the evidence makes of a change that the indexes say. -/

theorem settled_iff_of_ne {change : Option SnapshotChange} {p : Prop} [Decidable p]
    {result : SnapshotChange} (hmodified : result ≠ .modified) (hunchanged : result ≠ .unchanged) :
    (change.map fun change => if change = .unchanged ∧ p then .modified else change) = some result ↔
    change = some result := by
  cases change with
  | none => simp
  | some change =>
      by_cases h : change = .unchanged ∧ p
      · simp [h.1, h.2, hmodified.symm, hunchanged.symm]
      · simp [h]

theorem settled_eq_modified {change : Option SnapshotChange} {p : Prop} [Decidable p]
    (hchange : change ≠ some .modified) :
    (change.map fun change => if change = .unchanged ∧ p then .modified else change) =
      some .modified ↔
      change = some .unchanged ∧ p := by
  cases change with
  | none => simp
  | some change =>
      by_cases h : change = .unchanged ∧ p
      · simp [h.1, h.2]
      · have hne : change ≠ .modified := fun heq => hchange (congrArg some heq)
        simp [h, hne]

theorem settled_eq_unchanged {change : Option SnapshotChange} {p : Prop} [Decidable p] :
    (change.map fun change => if change = .unchanged ∧ p then .modified else change) =
      some .unchanged ↔
      change = some .unchanged ∧ ¬p := by
  cases change with
  | none => simp
  | some change => by_cases hchange : change = .unchanged <;> by_cases hp : p <;> simp [hchange, hp]

/-- What the tables of a comparison say of two indexes and a diff. -/
structure Classifies (binding : ComparisonBinding) (current previous : Manifest)
    (records : List SnapshotDiffRecord) (tables : ComparisonTables) : Prop where
  union : ∀ path, (tables.entries.get path).isSome = true ↔
    path ∈ current.paths ∨ path ∈ previous.paths
  added : ∀ path, changeOf tables.entries path = some .added ↔
    path ∈ current.paths ∧ path ∉ previous.paths
  deleted : ∀ path, changeOf tables.entries path = some .deleted ↔
    path ∉ current.paths ∧ path ∈ previous.paths
  modified : ∀ path, changeOf tables.entries path = some .modified ↔
    path ∈ current.paths ∧ path ∈ previous.paths ∧ records.countP (about path) = 1
  unchanged : ∀ path, changeOf tables.entries path = some .unchanged ↔
    path ∈ current.paths ∧ path ∈ previous.paths ∧ records.countP (about path) = 0
  /-- The records are changes, and the statistics of these snapshots at the end. -/
  complete : ∃ changes, records = completeRecords binding changes
  within : ∀ path modifier, .change path modifier ∈ records →
    exactPath path ∈ current.paths ∨ exactPath path ∈ previous.paths
  once : ∀ path, records.countP (about path) ≤ 1
  plus : ∀ path, .change path "+" ∈ records →
    exactPath path ∈ current.paths ∧ exactPath path ∉ previous.paths
  minus : ∀ path, .change path "-" ∈ records →
    exactPath path ∉ current.paths ∧ exactPath path ∈ previous.paths
  /-- What only one of the indexes has was reported. -/
  reported : ∀ path, (path ∈ current.paths ∧ path ∉ previous.paths ∨
    path ∉ current.paths ∧ path ∈ previous.paths) →
    records.countP (about path) = 1

/-- A comparison that becomes ready has classified every path of the two indexes, on complete
evidence about them; a `+` is for an added path and a `-` for a deleted one. -/
theorem populate_classifies (binding : ComparisonBinding) (current previous : Manifest)
    (records : List SnapshotDiffRecord) (tables : ComparisonTables)
    (h : populate binding previous current records = .ok tables) :
    Classifies binding current previous records tables := by
  unfold populate at h
  simp only [bind_eq_ok, refuseIf_eq_ok, pure_eq_ok, exists_const, Bool.or_eq_false_iff,
    Bool.not_eq_false'] at h
  obtain ⟨s, hfills, e, hrun, ⟨hsummary, hcomplete⟩, rfl⟩ := h
  -- Before the first record no path is reported, so every entry is as the two indexes give it.
  have hstart : Weighed (indexed current previous) [] ⟨⟨s.entries, .empty⟩, false, 0⟩ := by
    refine ⟨fun path => ?_, fun path => by simp [seenPaths], List.nodup_nil, by simp⟩
    rw [changeOf_fills hfills]
    simp [seenPaths]
  obtain ⟨changes, rfl, hweighed⟩ := consume_weighed hstart rfl hrun hsummary
  rw [List.nil_append] at hweighed
  have hcount : ∀ path, (completeRecords binding changes).countP (about path) =
      if path ∈ seenPaths changes then 1 else 0 := by
    intro path
    rw [countP_about]
    split
    next hmem => exact List.count_eq_one_of_mem hweighed.nodup hmem
    next hnot => exact List.count_eq_zero.mpr hnot
  have hentries : ∀ path, changeOf e.tables.entries path =
      (indexed current previous path).map fun change =>
        if change = .unchanged ∧ path ∈ seenPaths changes then .modified else change :=
          hweighed.entries
  -- The summary check refuses a path of one index only that no record named.
  have hreported : ∀ path, (changeOf e.tables.entries path = some .added ∨
      changeOf e.tables.entries path = some .deleted) →
      path ∈ seenPaths changes := by
    intro path hchange
    rw [← hweighed.observed]
    obtain ⟨row, hrow, hrowChange⟩ : ∃ row, e.tables.entries.get path = some row ∧
        (row.change = .added ∨ row.change = .deleted) := by
      rcases hchange with hchange | hchange
      · obtain ⟨row, hrow, heq⟩ := Option.map_eq_some_iff.mp hchange
        exact ⟨row, hrow, .inl heq⟩
      · obtain ⟨row, hrow, heq⟩ := Option.map_eq_some_iff.mp hchange
        exact ⟨row, hrow, .inr heq⟩
    have hnone := List.any_eq_false.mp hcomplete _ (OrderedMap.mem_entries.mpr hrow)
    rcases hrowChange with heq | heq <;> simpa [heq, Option.isSome_iff_ne_none] using hnone
  have hagrees : ∀ path modifier, .change path modifier ∈ completeRecords binding changes →
      ∃ change, indexed current previous (exactPath path) = some change ∧
        (modifier = "+" → change = .added) ∧ (modifier = "-" → change = .deleted) :=
    fun path modifier hmem => hweighed.agrees (path, modifier) (mem_completeRecords.mp hmem)
  -- In the order of the fields: the union, the four changes, then what the records say.
  refine ⟨fun path => ?_, fun path => ?_, fun path => ?_, fun path => ?_,
    fun path => ?_, ⟨changes, rfl⟩,
    fun path modifier hmem => ?_, fun path => ?_, fun path hmem => ?_, fun path hmem => ?_,
    fun path hone => ?_⟩
  · rw [← Option.isSome_map, show (e.tables.entries.get path).map (·.change) = _ from hentries path,
      Option.isSome_map, isSome_indexed]
  · rw [hentries, settled_iff_of_ne (by simp) (by simp), indexed_eq_added]
  · rw [hentries, settled_iff_of_ne (by simp) (by simp), indexed_eq_deleted]
  · rw [hentries, settled_eq_modified indexed_ne_modified, indexed_eq_unchanged, hcount, and_assoc]
    simp
  · rw [hentries, settled_eq_unchanged, indexed_eq_unchanged, hcount, and_assoc]
    simp
  · obtain ⟨change, hchange, -⟩ := hagrees path modifier hmem
    rw [← isSome_indexed, hchange, Option.isSome_some]
  · rw [hcount]
    split <;> simp
  · obtain ⟨change, hchange, hplus, -⟩ := hagrees path "+" hmem
    exact indexed_eq_added.mp (hplus rfl ▸ hchange)
  · obtain ⟨change, hchange, -, hminus⟩ := hagrees path "-" hmem
    exact indexed_eq_deleted.mp (hminus rfl ▸ hchange)
  · have hseen : path ∈ seenPaths changes := by
      refine hreported path (hone.imp (fun hadded => ?_) fun hdeleted => ?_)
      · rw [hentries, settled_iff_of_ne (by simp) (by simp), indexed_eq_added]
        exact hadded
      · rw [hentries, settled_iff_of_ne (by simp) (by simp), indexed_eq_deleted]
        exact hdeleted
    rw [hcount, if_pos hseen]

end

/-! ## Two small indexes -/

def comparedBinding : ComparisonBinding := ⟨"backup-new", "backup-old", "new", "old"⟩

def comparedFile (path name : String) : Row :=
  ⟨path, "", name, .file, 1, "2024-01-01T00:00:00Z", "", 1704067200000, false⟩

def currentIndex : Manifest :=
  ⟨[comparedFile "/a" "a", comparedFile "/b" "b", comparedFile "/c" "c"], by decide⟩

def previousIndex : Manifest :=
  ⟨[comparedFile "/b" "b", comparedFile "/c" "c", comparedFile "/d" "d"], by decide⟩

/-- A file was added, one was modified and one was deleted; nothing is said of the fourth. -/
def comparedRecords : List SnapshotDiffRecord :=
  [.change "/a" "+", .change "/b" "M", .change "/d" "-", .statistics "old" "new"]

/-- All four changes, each for one of the files. -/
theorem populate_classifies_sample : ∃ tables,
    populate comparedBinding previousIndex currentIndex comparedRecords = .ok tables ∧
      changeOf tables.entries "/a" = some .added ∧ changeOf tables.entries "/b" = some .modified ∧
      changeOf tables.entries "/c" = some .unchanged ∧
      changeOf tables.entries "/d" = some .deleted := by
  refine ⟨_, rfl, ?_⟩
  have hclasses :=
    populate_classifies comparedBinding currentIndex previousIndex comparedRecords _ rfl
  exact ⟨(hclasses.added "/a").mpr (by decide), (hclasses.modified "/b").mpr (by decide),
    (hclasses.unchanged "/c").mpr (by decide), (hclasses.deleted "/d").mpr (by decide)⟩

/-- A record that calls an added file modified is accepted, and the comparison becomes ready. -/
theorem added_path_with_other_modifier : ∃ tables,
    populate comparedBinding .empty currentIndex
        [.change "/a" "M", .change "/b" "+", .change "/c" "+",
          .statistics "old" "new"] = .ok tables ∧
      changeOf tables.entries "/a" = some .added ∧ "M" ≠ "+" :=
  ⟨_, rfl, by decide, by decide⟩

end Pluton.SnapshotIndex
