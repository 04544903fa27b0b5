-- SUMMARY: The pages of an index: what a query selects, and that its pages list exactly that.
import Mathlib.Algebra.Order.Ring.Rat
import Mathlib.Data.List.Infix
import Pluton.SnapshotIndex.Manifest

/-!
# Pages

`page` of `ManagedSnapshotIndex`. The list starts with the directories and is ordered by
a column and then by the path; the caller walks it by offsets.
-/
namespace Pluton.SnapshotIndex

open Except Posix
open Tar (managedSnapshotPath)

/-! ## Queries -/

inductive SortColumn where
  | name
  | size
  | modifiedAt

inductive SortOrder where
  | asc
  | desc

structure SnapshotPageQuery where
  path : Option String := none
  search : Option String := none
  offset : Option Rat := none
  limit : Option Rat := none
  sort : Option SortColumn := none
  order : Option SortOrder := none
  directoriesOnly : Option Bool := none

/-- The file of a row. -/
structure SnapShotFile where
  path : String
  name : String
  type : Tar.NodeType
  size : Nat
  modifiedAt : String
  permissions : String
  srcPath : String
  isDirectory : Bool
  owner : String
  isAvailable : Bool
  deriving DecidableEq

def asFile (row : Row) : SnapShotFile where
  path := row.path
  name := row.name
  type := row.type
  size := row.size
  modifiedAt := row.modifiedAt
  permissions := row.permissions
  srcPath := row.path
  isDirectory := row.type == .dir
  owner := ""
  isAvailable := true

structure SnapshotPage where
  files : List SnapShotFile
  total : Nat
  offset : Nat
  limit : Nat
  nextOffset : Option Nat
  entries : Nat

/-- An `AppError` with its text. -/
structure PageError where
  statusCode : Nat
  message : String
  deriving DecidableEq

def pageSize : Nat := 200
def maxPageSize : Nat := 500

/-! ## The page -/

/-- `lower(text)`; SQLite knows the letters of ASCII. -/
def lower (text : String) : List Char := text.toList.map Char.toLower

/-- `instr(lower(name), lower(search)) > 0` -/
def matchesSearch (name search : String) : Bool := (lower name).tails.any (lower search).isPrefixOf

/-- The condition of the query. -/
def selects (directory search : String) (directoriesOnly : Bool) (row : Row) : Bool :=
  row.parent == directory && matchesSearch row.name search && (!directoriesOnly || row.type == .dir)

/-- The column that a list is ordered by; a name is compared without its case. -/
def compareColumn (sort : SortColumn) (row other : Row) : Ordering :=
  match sort with
  | .name => compare (lower row.name) (lower other.name)
  | .size => compare row.size other.size
  | .modifiedAt => compare row.modifiedTime other.modifiedTime

/-- `ORDER BY isDirectory DESC, ..., path ASC` -/
def compareRows (sort : SortColumn) (order : SortOrder) (row other : Row) : Ordering :=
  let column := match order with
    | .asc => compareColumn sort row other
    | .desc => compareColumn sort other row
  (compare other.isDirectory row.isDirectory).then
    (column.then (compare row.path.toList other.path.toList))

/-- `!Number.isInteger(n) || n < low || n > high`, for a number that is given. -/
def outside (low high : Nat) (n : Option Rat) : Bool :=
  match n with
  | none => false
  | some n => !n.isInt || n < low || n > high

/-- `this.get(filePath)` -/
def Manifest.get (manifest : Manifest) (filePath : String) : Option SnapShotFile :=
  (manifest.rows.find? (·.path == filePath)).map asFile

/-- The checks of the directory; the root is the empty text. -/
def checkDirectory (manifest : Manifest) (directory : String) : Except PageError Unit := do
  if directory != "" then
    refuseIf (!Js.startsWith "/" directory) ⟨400, "Invalid snapshot directory."⟩
    let _ ← (managedSnapshotPath directory).mapError fun _ =>
      (⟨400, "Snapshot path must be an exact safe absolute POSIX path."⟩ : PageError)
    refuseIf ((manifest.get directory).map (·.type) != some .dir) ⟨404,
      "Snapshot directory not found."⟩

/-- The rows that a query selects, in their order. -/
def selected (manifest : Manifest) (query : SnapshotPageQuery) : List Row :=
  (manifest.rows.filter
    (selects (query.path.getD "") (query.search.getD "")
      (query.directoriesOnly.getD false))).insertionSort
    fun row other =>
      (compareRows (query.sort.getD .name) (query.order.getD .asc) row other).isLE = true

def page (manifest : Manifest) (query : SnapshotPageQuery) : Except PageError SnapshotPage := do
  refuseIf (outside 1 maxPageSize query.limit ||
    outside 0 snapshotIndexLimits.maxEntries query.offset ||
    Js.length (query.search.getD "") > 128) ⟨400, "Invalid snapshot page parameters."⟩
  checkDirectory manifest (query.path.getD "")
  let rows := selected manifest query
  let offset := (query.offset.map fun n => n.num.toNat).getD 0
  let limit := (query.limit.map fun n => n.num.toNat).getD pageSize
  let files := ((rows.drop offset).take limit).map asFile
  return { files
           total := rows.length
           offset
           limit
           nextOffset :=
             if offset + files.length < rows.length then some (offset + files.length) else none
           entries := manifest.rows.length }

/-- The pages from an offset on, each at the `nextOffset` of the one before. -/
def pagesFrom (manifest : Manifest) (query : SnapshotPageQuery) :
    Nat → Nat → Except PageError (List SnapShotFile)
  | 0, _ => return []
  | fuel + 1, offset => do
    let page ← page manifest { query with offset := some offset }
    match page.nextOffset with
    | none => return page.files
    | some next => return page.files ++ (← pagesFrom manifest query fuel next)

/-- All pages of a query. -/
def listing (manifest : Manifest) (query : SnapshotPageQuery) :
    Except PageError (List SnapShotFile) :=
  pagesFrom manifest query (manifest.rows.length + 1) 0

/-! ## What a query selects -/

section
variable {dateParse : String → Option Int} {limits : BuildLimits} {storage : Storage}
  {nodes : List SnapshotNode} {manifest : Manifest} {query : SnapshotPageQuery}

theorem selected_perm : (selected manifest query).Perm (manifest.rows.filter
    (selects (query.path.getD "") (query.search.getD "") (query.directoriesOnly.getD false))) :=
  List.perm_insertionSort _ _

theorem length_selected_le : (selected manifest query).length ≤ manifest.rows.length :=
  selected_perm.length_eq ▸ List.length_filter_le _ _

theorem matchesSearch_empty (name : String) : matchesSearch name "" = true :=
  List.any_eq_true.mpr ⟨lower name, (List.mem_tails _ _).mpr (List.suffix_refl _), rfl⟩

/-! ## Walking the pages -/

/-- The parameters of a query that do not depend on the offset pass. -/
structure Admitted (manifest : Manifest) (query : SnapshotPageQuery) : Prop where
  limit : outside 1 maxPageSize query.limit = false
  search : Js.length (query.search.getD "") ≤ 128
  directory : checkDirectory manifest (query.path.getD "") = .ok ()

/-- The most rows of a page. -/
def pageLimit (query : SnapshotPageQuery) : Nat :=
  (query.limit.map fun n => n.num.toNat).getD pageSize

theorem Admitted.pageLimit_pos (h : Admitted manifest query) : 0 < pageLimit query := by
  have hlimit := h.limit
  unfold pageLimit
  cases hcase : query.limit with
  | none => exact Nat.succ_pos 199
  | some n =>
      rw [hcase] at hlimit
      simp only [outside, Bool.or_eq_false_iff, decide_eq_false_iff_not, not_lt] at hlimit
      have hpos : 0 < n := lt_of_lt_of_le one_pos (by simpa using hlimit.1.2)
      have hnum : 0 < n.num := Rat.num_pos.mpr hpos
      rw [Option.map_some, Option.getD_some]
      omega

/-- Where the page after this one starts. -/
def nextOffset (total limit offset : Nat) : Option Nat :=
  if offset + min limit (total - offset) < total then
    some (offset + min limit (total - offset))
  else none

theorem page_at (h : Admitted manifest query) {offset : Nat}
    (hoffset : offset ≤ snapshotIndexLimits.maxEntries) :
    page manifest { query with offset := some offset } = .ok
      { files := (((selected manifest query).drop offset).take (pageLimit query)).map asFile
        total := (selected manifest query).length
        offset
        limit := pageLimit query
        nextOffset := nextOffset (selected manifest query).length (pageLimit query) offset
        entries := manifest.rows.length } := by
  have hinside : outside 0 snapshotIndexLimits.maxEntries (some (offset : Rat)) = false := by
    simp only [outside, Bool.or_eq_false_iff, decide_eq_false_iff_not, not_lt, gt_iff_lt]
    exact ⟨⟨by simp [Rat.isInt], by exact_mod_cast Nat.zero_le offset⟩, by exact_mod_cast hoffset⟩
  have hsearch : decide (Js.length (query.search.getD "") > 128) = false :=
    decide_eq_false (Nat.not_lt.mpr h.search)
  unfold page
  simp only [h.limit, hinside, hsearch, h.directory, Bool.or_false]
  simp [refuseIf, pageLimit, nextOffset, selected, bind, Except.bind, pure, Except.pure]

/-- From an offset on the pages hold the rest of the selected rows, each once. -/
theorem pagesFrom_eq (h : Admitted manifest query)
    (hsmall : manifest.rows.length ≤ snapshotIndexLimits.maxEntries) {fuel offset : Nat}
    (hoffset : offset ≤ (selected manifest query).length)
    (hfuel : (selected manifest query).length < offset + fuel) :
    pagesFrom manifest query fuel offset =
      .ok (((selected manifest query).drop offset).map asFile) := by
  have htotal : (selected manifest query).length ≤ manifest.rows.length := length_selected_le
  induction fuel generalizing offset with
  | zero => omega
  | succ fuel ih =>
      have hpage := page_at h (hoffset.trans (htotal.trans hsmall))
      have hpos := h.pageLimit_pos
      rw [pagesFrom, hpage]
      simp only [bind, Except.bind]
      unfold nextOffset
      split
      next hnone =>
        split at hnone
        · cases hnone
        · rw [List.take_of_length_le (by rw [List.length_drop]; omega)]
          rfl
      next next hsome =>
        split at hsome
        next hmore =>
          obtain rfl := Option.some.inj hsome
          have hfull : min (pageLimit query) ((selected manifest query).length - offset) =
              pageLimit query := by omega
          rw [ih (by omega) (by omega), hfull, ← List.drop_drop]
          simp only [pure, Except.pure]
          rw [← List.map_append, List.take_append_drop]
        · cases hsome

theorem listing_eq (h : Admitted manifest query)
    (hsmall : manifest.rows.length ≤ snapshotIndexLimits.maxEntries) :
    listing manifest query = .ok ((selected manifest query).map asFile) := by
  have htotal : (selected manifest query).length ≤ manifest.rows.length := length_selected_le
  exact pagesFrom_eq h hsmall (Nat.zero_le _) (by omega)

/-! ## The children of a directory -/

/-- The text that names a node's directory in a query. -/
def parentOf (node : SnapshotNode) : String :=
  if dirname node.path == "/" then "" else dirname node.path

/-- The file that an index answers for a node. -/
def fileOf (dateParse : String → Option Int) (node : SnapshotNode) : SnapShotFile :=
  asFile (rowOf dateParse node)

/-- A text that names a directory of the index, or the root. -/
def Names (nodes : List SnapshotNode) (directory : String) : Prop :=
  directory = "" ∨ ∃ node ∈ nodes, node.path = directory ∧ node.type = .dir

/-- A query for a whole directory. -/
structure Whole (query : SnapshotPageQuery) : Prop where
  limit : outside 1 maxPageSize query.limit = false
  search : query.search.getD "" = ""
  directoriesOnly : query.directoriesOnly.getD false = false

theorem get_eq_some (hrows : manifest.rows = nodes.map (rowOf dateParse))
    (hvalid : Valid dateParse nodes) {path : String} {file : SnapShotFile} :
    manifest.get path = some file ↔
    ∃ node ∈ nodes, node.path = path ∧ file = fileOf dateParse node := by
  rw [Manifest.get, Option.map_eq_some_iff]
  constructor
  · rintro ⟨row, hfind, rfl⟩
    have hmem := List.mem_of_find?_eq_some hfind
    rw [hrows] at hmem
    obtain ⟨node, hnode, rfl⟩ := List.mem_map.mp hmem
    have hpath := List.find?_some hfind
    exact ⟨node, hnode, beq_iff_eq.mp hpath, rfl⟩
  · rintro ⟨node, hnode, rfl, rfl⟩
    have hmem : rowOf dateParse node ∈ manifest.rows := hrows ▸ List.mem_map_of_mem hnode
    cases hfind : manifest.rows.find? (·.path == node.path) with
    | none =>
        have hnot := List.find?_eq_none.mp hfind _ hmem
        simp [rowOf] at hnot
    | some row =>
        have hrow := List.mem_of_find?_eq_some hfind
        rw [hrows] at hrow
        obtain ⟨other, hother, rfl⟩ := List.mem_map.mp hrow
        have hpath := List.find?_some hfind
        have hsame : other = node :=
          List.inj_on_of_nodup_map hvalid.nodup hother hnode (beq_iff_eq.mp hpath)
        exact ⟨_, rfl, by rw [hsame]; rfl⟩

theorem checkDirectory_eq_ok (hrows : manifest.rows = nodes.map (rowOf dateParse))
    (hvalid : Valid dateParse nodes) {directory : String} :
    checkDirectory manifest directory = .ok () ↔ Names nodes directory := by
  unfold checkDirectory
  split
  next hpath =>
    have hne : directory ≠ "" := bne_iff_ne.mp hpath
    simp only [bind_eq_ok, mapError_eq_ok, refuseIf_eq_ok, bne_eq_false_iff_eq,
      Option.map_eq_some_iff, get_eq_some hrows hvalid]
    constructor
    · rintro ⟨_, -, _, -, _, ⟨node, hnode, hown, rfl⟩, htype⟩
      exact .inr ⟨node, hnode, hown, htype⟩
    · rintro (hroot | ⟨node, hnode, rfl, htype⟩)
      · exact absurd hroot hne
      · have hsafe := (hvalid.node node hnode).path
        exact ⟨(), by rw [hsafe.absolute]; rfl, node.path, Tar.safePath_iff.mpr hsafe, _,
          ⟨node, hnode, rfl, rfl⟩, htype⟩
  next hroot => exact iff_of_true rfl (.inl (by simpa using hroot))

theorem listing_whole (hrows : manifest.rows = nodes.map (rowOf dateParse))
    (hvalid : Valid dateParse nodes) (hsmall : nodes.length ≤ snapshotIndexLimits.maxEntries)
    (hwhole : Whole query) (hnames : Names nodes (query.path.getD "")) :
    ∃ files, listing manifest query = .ok files ∧
      files.Perm ((nodes.filter fun node =>
        parentOf node == query.path.getD "").map (fileOf dateParse)) := by
  have hadmitted : Admitted manifest query :=
    ⟨hwhole.limit, by rw [hwhole.search]; decide, (checkDirectory_eq_ok hrows hvalid).mpr hnames⟩
  refine ⟨_, listing_eq hadmitted (by rwa [hrows, List.length_map]), ?_⟩
  have hselects : selects (query.path.getD "") (query.search.getD "")
      (query.directoriesOnly.getD false) ∘ rowOf dateParse =
      fun node => parentOf node == query.path.getD "" := by
    funext node
    rw [hwhole.search, hwhole.directoriesOnly]
    simp [selects, matchesSearch_empty, rowOf, parentOf]
  have hselected : (selected manifest query).Perm _ := selected_perm
  have hperm := hselected.map asFile
  rw [hrows, List.filter_map, hselects, List.map_map] at hperm
  exact hperm

theorem checkDirectory_ends (directory : String) :
    (checkDirectory manifest directory).Ends (fun _ => True) fun e =>
      e.statusCode = 400 ∨ e.statusCode = 404 := by
  unfold checkDirectory
  split
  · refine ends_bind (fun _ _ => ends_bind (fun _ _ => ?_) fun e he => ?_) fun e he => ?_
    · unfold refuseIf
      split
      · exact .inr rfl
      · trivial
    · cases hmanaged : managedSnapshotPath directory with
      | ok path =>
          rw [hmanaged] at he
          cases he
      | error failure =>
          rw [hmanaged] at he
          cases he
          exact .inl rfl
    · unfold refuseIf at he
      split at he
      · cases he
        exact .inl rfl
      · cases he
  · trivial

theorem listing_refused (hrows : manifest.rows = nodes.map (rowOf dateParse))
    (hvalid : Valid dateParse nodes) (hnames : ¬Names nodes (query.path.getD "")) :
    ∃ e, listing manifest query = .error e ∧ (e.statusCode = 400 ∨ e.statusCode = 404) := by
  cases hcheck : checkDirectory manifest (query.path.getD "") with
  | ok _ => exact absurd ((checkDirectory_eq_ok hrows hvalid).mp hcheck) hnames
  | error e =>
      have hcode := (checkDirectory_ends (query.path.getD "")).of_error hcheck
      rw [listing, pagesFrom, page]
      simp only [hcheck]
      unfold refuseIf
      split
      · exact ⟨_, rfl, .inl rfl⟩
      · exact ⟨e, rfl, hcode⟩

/-! ## The index of a snapshot -/

/-- An index is built exactly from a valid snapshot, in any order of its nodes. It holds these
nodes, each under the text of its directory, and the pages of a directory that it holds, or of
the root, list exactly the nodes in it; any other directory is refused. -/
theorem build_listing (hlimits : WithinLimits dateParse limits storage nodes) :
    ((∃ manifest, build dateParse limits storage nodes = .ok manifest) ↔ Valid dateParse nodes) ∧
      (∀ others, nodes.Perm others →
        ((∃ manifest, build dateParse limits storage others = .ok manifest) ↔
        ∃ manifest, build dateParse limits storage nodes = .ok manifest)) ∧
      ∀ manifest, build dateParse limits storage nodes = .ok manifest →
        manifest.rows = nodes.map (rowOf dateParse) ∧
        (∀ node ∈ nodes, ∃! directory, ∃ row ∈ manifest.rows,
          row.path = node.path ∧ row.parent = directory) ∧
        ∀ query, Whole query →
          (Names nodes (query.path.getD "") → ∃ files, listing manifest query = .ok files ∧
            files.Perm ((nodes.filter fun node => parentOf node == query.path.getD "").map
              (fileOf dateParse))) ∧
          (¬Names nodes (query.path.getD "") →
            ∃ e, listing manifest query = .error e ∧ (e.statusCode = 400 ∨
              e.statusCode = 404)) := by
  have hbuilds : ∀ {nodes : List SnapshotNode}, WithinLimits dateParse limits storage nodes →
      ((∃ manifest, build dateParse limits storage nodes = .ok manifest) ↔
        Valid dateParse nodes) := by
    intro nodes hlimits
    constructor
    · rintro ⟨manifest, hbuild⟩
      exact ((build_eq_ok hlimits).mp hbuild).1
    · intro hvalid
      have hnodup : ((nodes.map (rowOf dateParse)).map (·.path)).Nodup :=
        map_path_rowOf ▸ hvalid.nodup
      exact ⟨⟨nodes.map (rowOf dateParse), hnodup⟩, (build_eq_ok hlimits).mpr ⟨hvalid, rfl⟩⟩
  refine ⟨hbuilds hlimits, fun others hperm => ?_, fun manifest hbuild => ?_⟩
  · rw [hbuilds hlimits, hbuilds (hlimits.perm hperm)]
    exact ⟨fun h => h.perm hperm.symm, fun h => h.perm hperm⟩
  · obtain ⟨hvalid, hrows⟩ := (build_eq_ok hlimits).mp hbuild
    have hsmall := hlimits.entries.trans hlimits.defaults
    refine ⟨hrows, fun node hnode => ⟨parentOf node, ?_, ?_⟩, fun query hwhole =>
      ⟨fun hnames => listing_whole hrows hvalid hsmall hwhole hnames, listing_refused hrows hvalid⟩⟩
    · exact ⟨rowOf dateParse node, hrows ▸ List.mem_map_of_mem hnode, rfl, rfl⟩
    · rintro directory ⟨row, hrow, hpath, rfl⟩
      rw [hrows] at hrow
      obtain ⟨other, hother, rfl⟩ := List.mem_map.mp hrow
      have hsame : other = node := List.inj_on_of_nodup_map hvalid.nodup hother hnode hpath
      rw [hsame]
      rfl

end

/-- `Date.parse`, at one time. -/
def sampleTime (text : String) : Option Int :=
  if text == "2024-01-01T00:00:00Z" then some 1704067200000 else none

/-- A database of two pages with room left. -/
def roomy : Storage := ⟨fun _ => 2 * 4096, fun _ => false⟩

def sampleDir : SnapshotNode := ⟨"a", "/a", .dir, 0, "2024-01-01T00:00:00Z", none⟩
def sampleFile : SnapshotNode := ⟨"b", "/a/b", .file, 3, "2024-01-01T00:00:00Z", none⟩

/-- The limits hold of a listing in which a file comes before its directory. -/
theorem build_listing_sample :
    ((∃ manifest, build sampleTime snapshotIndexLimits roomy [sampleFile, sampleDir] =
      .ok manifest) ↔
    Valid sampleTime [sampleFile, sampleDir]) ∧ ∃ manifest,
      build sampleTime snapshotIndexLimits roomy [sampleFile, sampleDir] = .ok manifest ∧
      ∃ files, listing manifest { path := some "/a" } = .ok files ∧
        files.Perm [fileOf sampleTime sampleFile] := by
  have hroom : 2 * 4096 < snapshotIndexLimits.maxBytes := by decide
  have hlimits : WithinLimits sampleTime snapshotIndexLimits roomy [sampleFile, sampleDir] :=
    ⟨by decide, by decide, by decide, fun _ _ => ⟨rfl, hroom⟩⟩
  have hindex := build_listing hlimits
  have hbuild : build sampleTime snapshotIndexLimits roomy [sampleFile, sampleDir] =
      .ok ⟨[rowOf sampleTime sampleFile, rowOf sampleTime sampleDir], by decide⟩ := rfl
  refine ⟨hindex.1, _, hbuild, ?_⟩
  exact ((hindex.2.2 _ hbuild).2.2 { path := some "/a" } ⟨rfl, rfl, rfl⟩).1
    (.inr ⟨sampleDir, by simp, rfl, rfl⟩)

/-- A file whose directory is not in the listing makes an index, but its directory is not listed. -/
theorem absent_directory_not_listed :
    ∃ manifest, build sampleTime snapshotIndexLimits roomy [sampleFile] = .ok manifest ∧
    dirname sampleFile.path = "/a" ∧
    listing manifest { path := some "/a" } = .error ⟨404, "Snapshot directory not found."⟩ :=
  ⟨⟨[rowOf sampleTime sampleFile], by decide⟩, rfl, by decide, rfl⟩

end Pluton.SnapshotIndex
