-- SUMMARY: Building the manifest of a snapshot: which nodes make an index, and what it holds.
import Pluton.Ends
import Pluton.SnapshotIndex.Cache
import Pluton.Tar.SafePaths

/-!
# The manifest

`build` of `ManagedSnapshotIndexCache`, as far as it concerns the nodes: `appendNode` checks
a node and inserts it, and the table of ancestors is joined with the nodes at the end.
`dateParse` is `Date.parse`. What SQLite answers about its size is in `Storage`.
-/
namespace Pluton.SnapshotIndex

open Except Posix
open Tar (NodeType SafePath managedSnapshotPath)

/-! ## Nodes and rows -/

/-- A node of the repository's listing. -/
structure SnapshotNode where
  name : String
  path : String
  type : NodeType
  size : Int
  mtime : String
  mode : Option Nat

structure Row where
  path : String
  parent : String
  name : String
  type : NodeType
  size : Nat
  modifiedAt : String
  permissions : String
  modifiedTime : Int
  isDirectory : Bool

/-- The table `nodes`; `path` is its primary key. -/
structure Manifest where
  rows : List Row
  nodup : (rows.map (·.path)).Nodup

def Manifest.empty : Manifest := ⟨[], List.nodup_nil⟩

/-- `INSERT INTO nodes VALUES (...)`, which fails on a path that is there. -/
def Manifest.insert (manifest : Manifest) (row : Row) : Option Manifest :=
  if h : row.path ∈ manifest.rows.map (·.path) then none
  else some ⟨manifest.rows ++ [row], by
    rw [List.map_append, List.map_singleton]
    exact List.nodup_append.mpr ⟨manifest.nodup, List.nodup_singleton _, fun x hx y hy heq =>
      h (List.mem_singleton.mp hy ▸ heq ▸ hx)⟩⟩

structure Database where
  nodes : Manifest
  ancestors : List String

/-- What SQLite says of a database: its bytes by the page count, and whether the last insert
does not fit. -/
structure Storage where
  bytes : Database → Nat
  full : Database → Bool

structure BuildLimits where
  maxEntries : Nat
  maxBytes : Nat

/-- `SNAPSHOT_INDEX_LIMITS` -/
def snapshotIndexLimits : BuildLimits := ⟨500000, 256 * 1024 ^ 2⟩

def invalidMetadata (reason : Reason) : AppError := .index ⟨.metadataInvalid, reason⟩

/-! ## Building -/

/-- The variables of a build. -/
structure Building where
  db : Database
  count : Nat
  logicalBytes : Nat
  bytes : Nat

def Building.start : Building := ⟨⟨.empty, []⟩, 0, 0, 0⟩

section
variable (dateParse : String → Option Int) (limits : BuildLimits) (storage : Storage)

/-- `String(node.mode || '')` -/
def permissionsText (mode : Option Nat) : String :=
  match mode with
  | none => ""
  | some n => if n == 0 then "" else toString n

/-- The row that is inserted for a node. -/
def rowOf (node : SnapshotNode) : Row where
  path := node.path
  parent := if dirname node.path == "/" then "" else dirname node.path
  name := node.name
  type := node.type
  size := node.size.toNat
  modifiedAt := node.mtime
  permissions := permissionsText node.mode
  modifiedTime := (dateParse node.mtime).getD 0
  isDirectory := node.type == .dir

/-- `INSERT OR IGNORE INTO ancestors VALUES (?)` -/
def addAncestor (ancestors : List String) (path : String) : List String :=
  if ancestors.contains path then ancestors else ancestors ++ [path]

/-- The bytes that a node adds to `logicalBytes`. -/
def logicalSize (node : SnapshotNode) : Nat := if node.type == .file then node.size.toNat else 0

/-- The checks of a node itself. -/
def checkNode (node : SnapshotNode) : Except AppError Unit := do
  let exactPath ← (managedSnapshotPath node.path).mapError fun _ => invalidMetadata .unsafePath
  refuseIf (node.name != basename exactPath) (invalidMetadata .invalidNodeName)
  refuseIf (node.size > Js.maxSafeInteger || node.size < 0) (invalidMetadata .invalidSize)
  refuseIf (Js.length node.mtime > 64 || (dateParse node.mtime).isNone)
    (invalidMetadata .invalidTimestamp)

/-- The two inserts of a node. -/
def insertNode (db : Database) (node : SnapshotNode) : Except AppError Database := do
  match db.nodes.insert (rowOf dateParse node) with
  | none => .error (invalidMetadata .duplicateEntry)
  | some nodes =>
    let next : Database :=
      ⟨nodes, (parents node.path.length node.path).foldl addAncestor db.ancestors⟩
    refuseIf (storage.full next) (.limit .storageFull)
    return next

def appendNode (s : Building) (node : SnapshotNode) : Except AppError Building := do
  refuseIf (s.bytes ≥ limits.maxBytes) (.limit .databaseSize)
  refuseIf (s.count + 1 > limits.maxEntries) (.limit .entryCount)
  checkNode dateParse node
  refuseIf (s.logicalBytes + logicalSize node > Js.maxSafeInteger) (invalidMetadata .invalidSize)
  let db ← insertNode dateParse storage s.db node
  -- the database is measured now and then
  let measured := (s.count + 1) % 256 == 0 || limits.maxBytes < 1024 ^ 2
  return { db
           count := s.count + 1
           logicalBytes := s.logicalBytes + logicalSize node
           bytes := if measured then storage.bytes db else s.bytes }

/-- `SELECT 1 FROM ancestors JOIN nodes USING(path) WHERE nodes.type != 'dir'` -/
def conflicts (db : Database) : Bool :=
  db.nodes.rows.any fun row => row.type != .dir && db.ancestors.contains row.path

def build (nodes : List SnapshotNode) : Except AppError Manifest := do
  refuseIf (limits.maxBytes < 2 * 4096) (.limit .databaseSize)
  let s ← nodes.foldlM (appendNode dateParse limits storage) .start
  refuseIf (conflicts s.db) (invalidMetadata .ancestorConflict)
  return s.db.nodes

end

/-! ## Valid snapshots -/

/-- A node that passes its own checks. -/
structure NodeValid (dateParse : String → Option Int) (node : SnapshotNode) : Prop where
  path : SafePath node.path
  name : node.name = basename node.path
  size : 0 ≤ node.size ∧ node.size ≤ Js.maxSafeInteger
  mtime : Js.length node.mtime ≤ 64
  time : (dateParse node.mtime).isSome = true

/-- The sizes of the regular files together. -/
def totalSize (nodes : List SnapshotNode) : Nat := (nodes.map logicalSize).sum

/-- What is asked of the nodes of a snapshot. -/
structure Valid (dateParse : String → Option Int) (nodes : List SnapshotNode) : Prop where
  node : ∀ node ∈ nodes, NodeValid dateParse node
  total : totalSize nodes ≤ Js.maxSafeInteger
  nodup : (nodes.map (·.path)).Nodup
  tree : ∀ node ∈ nodes, ∀ other ∈ nodes, Below node.path other.path → node.type = .dir

/-- The database holds rows of the nodes and ancestors of them, and nothing else. -/
structure Indexes (dateParse : String → Option Int) (nodes : List SnapshotNode) (db : Database) :
    Prop where
  rows : ∀ row ∈ db.nodes.rows, ∃ node ∈ nodes, row = rowOf dateParse node
  ancestors : ∀ path ∈ db.ancestors, ∃ node ∈ nodes, path ∈ parents node.path.length node.path

/-- The snapshot stays within the limits, which are the default ones or smaller: whatever of
its nodes are in the database, it fits. -/
structure WithinLimits (dateParse : String → Option Int) (limits : BuildLimits) (storage : Storage)
    (nodes : List SnapshotNode) : Prop where
  entries : nodes.length ≤ limits.maxEntries
  defaults : limits.maxEntries ≤ snapshotIndexLimits.maxEntries
  pages : 2 * 4096 ≤ limits.maxBytes
  room : ∀ db, Indexes dateParse nodes db →
    storage.full db = false ∧ storage.bytes db < limits.maxBytes

section
variable {dateParse : String → Option Int} {limits : BuildLimits} {storage : Storage}
  {node : SnapshotNode} {nodes done : List SnapshotNode} {s s' : Building} {manifest : Manifest}
  {row : Row} {path : String} {others : List SnapshotNode} {rest : List SnapshotNode}

/-! ## One node -/

theorem checkNode_eq_ok {u : Unit} :
    checkNode dateParse node = .ok u ↔ NodeValid dateParse node := by
  unfold checkNode
  simp only [bind_eq_ok, refuseIf_eq_ok]
  constructor
  · rintro ⟨exactPath, hpath, _, hname, _, hsize, htime⟩
    cases hmanaged : managedSnapshotPath node.path with
    | error e =>
        rw [hmanaged] at hpath
        cases hpath
    | ok value =>
        rw [hmanaged] at hpath
        cases hpath
        obtain ⟨rfl, hsafe⟩ := Tar.managedSnapshotPath_eq_ok.mp hmanaged
        simp only [Bool.or_eq_false_iff, decide_eq_false_iff_not, bne_eq_false_iff_eq,
          Option.isNone_eq_false_iff] at hname hsize htime
        exact ⟨hsafe, hname, by omega, by omega, htime.2⟩
  · rintro ⟨hsafe, hname, ⟨hnonneg, hsmall⟩, hmtime, htime⟩
    refine ⟨node.path, by rw [Tar.safePath_iff.mpr hsafe]; rfl, (), by simp [hname], (), ?_, ?_⟩
    · simp only [Bool.or_eq_false_iff, decide_eq_false_iff_not]
      omega
    · simp only [Bool.or_eq_false_iff, decide_eq_false_iff_not, Option.isNone_eq_false_iff]
      exact ⟨by omega, htime⟩

theorem mem_foldl_addAncestor {paths ancestors : List String} :
    path ∈ paths.foldl addAncestor ancestors ↔ path ∈ ancestors ∨ path ∈ paths := by
  induction paths generalizing ancestors with
  | nil => simp
  | cons first paths ih =>
      rw [List.foldl_cons, ih, List.mem_cons]
      unfold addAncestor
      split
      next h =>
        have hfirst : first ∈ ancestors := List.contains_iff_mem.mp h
        constructor
        · exact fun h => h.imp id .inr
        · rintro (h | rfl | h)
          · exact .inl h
          · exact .inl hfirst
          · exact .inr h
      next => simp [or_assoc]

theorem insert_eq_some {next : Manifest} : manifest.insert row = some next ↔
    row.path ∉ manifest.rows.map (·.path) ∧ next.rows = manifest.rows ++ [row] := by
  unfold Manifest.insert
  split
  next h => exact iff_of_false nofun fun hnot => hnot.1 h
  next h =>
    constructor
    · rintro ⟨⟩
      exact ⟨h, rfl⟩
    · rintro ⟨-, hrows⟩
      obtain ⟨rows, nodup⟩ := next
      subst hrows
      rfl

/-! ## The nodes so far -/

/-- What the variables hold after some nodes. -/
structure Holds (dateParse : String → Option Int) (limits : BuildLimits) (done : List SnapshotNode)
    (s : Building) : Prop where
  rows : s.db.nodes.rows = done.map (rowOf dateParse)
  ancestors : ∀ path, path ∈ s.db.ancestors ↔
    ∃ node ∈ done, path ∈ parents node.path.length node.path
  count : s.count = done.length
  logicalBytes : s.logicalBytes = totalSize done
  bytes : s.bytes < limits.maxBytes

/-- A node that can follow others. -/
structure Fits (dateParse : String → Option Int) (done : List SnapshotNode) (node : SnapshotNode) :
    Prop where
  valid : NodeValid dateParse node
  total : totalSize (done ++ [node]) ≤ Js.maxSafeInteger
  fresh : node.path ∉ done.map (·.path)

theorem totalSize_append :
    totalSize (done ++ others) = totalSize done + totalSize others := by
  rw [totalSize, List.map_append, List.sum_append]
  rfl

theorem map_path_rowOf : (done.map (rowOf dateParse)).map (·.path) = done.map (·.path) := by
  rw [List.map_map]
  rfl

theorem holds_start (hlimits : WithinLimits dateParse limits storage nodes) :
    Holds dateParse limits [] .start where
  rows := rfl
  ancestors := fun path => by simp [Building.start]
  count := rfl
  logicalBytes := rfl
  bytes := Nat.lt_of_lt_of_le (by decide) hlimits.pages

theorem Holds.mem_ancestors (h : Holds dateParse limits done s) :
    path ∈ (parents node.path.length node.path).foldl addAncestor s.db.ancestors ↔
      ∃ other ∈ done ++ [node], path ∈ parents other.path.length other.path := by
  simp only [mem_foldl_addAncestor, h.ancestors, List.mem_append, List.mem_singleton, or_and_right,
    exists_or, exists_eq_left]

/-- The inserts of a node add what belongs to the snapshot. -/
theorem Holds.indexes {next : Manifest} (h : Holds dateParse limits done s)
    (hsub : ∀ x ∈ done ++ [node], x ∈ nodes)
    (hrows : next.rows = (done ++ [node]).map (rowOf dateParse)) :
    Indexes dateParse nodes ⟨next,
      (parents node.path.length node.path).foldl addAncestor s.db.ancestors⟩ where
  rows row hrow := by
    obtain ⟨x, hx, rfl⟩ := List.mem_map.mp (hrows ▸ hrow)
    exact ⟨x, hsub x hx, rfl⟩
  ancestors path hpath := by
    obtain ⟨x, hx, hparent⟩ := h.mem_ancestors.mp hpath
    exact ⟨x, hsub x hx, hparent⟩

theorem appendNode_holds (hlimits : WithinLimits dateParse limits storage nodes)
    (hsub : ∀ x ∈ done ++ [node], x ∈ nodes) (h : Holds dateParse limits done s)
    (happend : appendNode dateParse limits storage s node = .ok s') :
    Fits dateParse done node ∧ Holds dateParse limits (done ++ [node]) s' := by
  unfold appendNode at happend
  simp only [bind_eq_ok, refuseIf_eq_ok, pure_eq_ok, decide_eq_false_iff_not, Nat.not_lt,
    Nat.not_le, gt_iff_lt, ge_iff_le] at happend
  obtain ⟨_, -, _, -, _, hcheck, _, htotal, db, hinsert, rfl⟩ := happend
  unfold insertNode at hinsert
  cases hnodes : s.db.nodes.insert (rowOf dateParse node) with
  | none =>
      rw [hnodes] at hinsert
      cases hinsert
  | some next =>
      rw [hnodes] at hinsert
      simp only [bind_eq_ok, refuseIf_eq_ok, pure_eq_ok] at hinsert
      obtain ⟨_, -, rfl⟩ := hinsert
      obtain ⟨hfresh, hrows⟩ := insert_eq_some.mp hnodes
      rw [h.rows, map_path_rowOf] at hfresh
      have hall : next.rows = (done ++ [node]).map (rowOf dateParse) := by
        rw [hrows, h.rows, List.map_append, List.map_singleton]
      have htotal' : totalSize (done ++ [node]) = s.logicalBytes + logicalSize node := by
        rw [totalSize_append, h.logicalBytes]
        simp [totalSize]
      refine ⟨⟨checkNode_eq_ok.mp hcheck, by omega, hfresh⟩, hall, fun path => h.mem_ancestors,
        by simp [h.count], htotal'.symm, ?_⟩
      dsimp only
      split
      · exact (hlimits.room _ (h.indexes hsub hall)).2
      · exact h.bytes

theorem appendNode_ok (hlimits : WithinLimits dateParse limits storage nodes)
    (hsub : ∀ x ∈ done ++ [node], x ∈ nodes) (hlength : done.length < nodes.length)
    (h : Holds dateParse limits done s) (hfits : Fits dateParse done node) :
    ∃ s', appendNode dateParse limits storage s node = .ok s' := by
  obtain ⟨db, hinsert⟩ : ∃ db, insertNode dateParse storage s.db node = .ok db := by
    have hfresh : (rowOf dateParse node).path ∉ s.db.nodes.rows.map (·.path) := by
      rw [h.rows, map_path_rowOf]
      exact hfits.fresh
    obtain ⟨next, hnext⟩ : ∃ next, s.db.nodes.insert (rowOf dateParse node) = some next :=
      ⟨_, dif_neg hfresh⟩
    have hrows := (insert_eq_some.mp hnext).2
    refine ⟨⟨next, (parents node.path.length node.path).foldl addAncestor s.db.ancestors⟩, ?_⟩
    unfold insertNode
    rw [hnext]
    simp only [bind_eq_ok, refuseIf_eq_ok, pure_eq_ok]
    have hall : next.rows = (done ++ [node]).map (rowOf dateParse) := by
      rw [hrows, h.rows, List.map_append, List.map_singleton]
    exact ⟨(), (hlimits.room _ (h.indexes hsub hall)).1, trivial⟩
  have htotal := hfits.total
  rw [totalSize_append, ← h.logicalBytes] at htotal
  have hone : totalSize [node] = logicalSize node := by simp [totalSize]
  have hentries := hlimits.entries
  unfold appendNode
  simp only [bind_eq_ok, refuseIf_eq_ok, pure_eq_ok, decide_eq_false_iff_not, Nat.not_lt,
    Nat.not_le, gt_iff_lt, ge_iff_le]
  exact ⟨_, (), h.bytes, (), by rw [h.count]; omega, (), checkNode_eq_ok.mpr hfits.valid, (),
    by omega, db, hinsert, rfl⟩

/-! ## All nodes -/

/-- Every node fits those before it. -/
def AllFit (dateParse : String → Option Int) (done nodes : List SnapshotNode) : Prop :=
  ∀ before node after, nodes = before ++ node :: after → Fits dateParse (done ++ before) node

theorem allFit_cons : AllFit dateParse done (node :: rest) ↔
    Fits dateParse done node ∧ AllFit dateParse (done ++ [node]) rest := by
  constructor
  · intro h
    refine ⟨?_, fun before x after heq => ?_⟩
    · have hfirst := h [] node rest rfl
      rwa [List.append_nil] at hfirst
    · have hnext := h (node :: before) x after (by rw [heq, List.cons_append])
      rwa [List.append_cons] at hnext
  · rintro ⟨hfirst, hrest⟩ before x after heq
    cases before with
    | nil =>
        obtain ⟨rfl, rfl⟩ := List.cons.inj heq
        rwa [List.append_nil]
    | cons first before =>
        obtain ⟨rfl, hsame⟩ := List.cons.inj heq
        rw [List.append_cons]
        exact hrest before x after hsame

/-- The nodes are appended exactly if each fits those before it. -/
theorem foldlM_appendNode (hlimits : WithinLimits dateParse limits storage nodes)
    (hnodes : nodes = done ++ rest) (h : Holds dateParse limits done s) :
    (∃ s', rest.foldlM (appendNode dateParse limits storage) s = .ok s') ↔
    AllFit dateParse done rest := by
  induction rest generalizing done s with
  | nil =>
      refine iff_of_true ⟨s, rfl⟩ fun before node after heq => ?_
      simp at heq
  | cons node rest ih =>
      have hsub : ∀ x ∈ done ++ [node], x ∈ nodes := by
        intro x hx
        rw [hnodes, List.append_cons]
        exact List.mem_append_left _ hx
      rw [List.append_cons] at hnodes
      have hlength : done.length < nodes.length := by
        rw [hnodes]
        simp
      rw [allFit_cons]
      simp only [List.foldlM_cons, bind_eq_ok]
      constructor
      · rintro ⟨s', next, hnext, hrest⟩
        obtain ⟨hfits, hholds⟩ := appendNode_holds hlimits hsub h hnext
        exact ⟨hfits, (ih hnodes hholds).mp ⟨s', hrest⟩⟩
      · rintro ⟨hfits, hrest⟩
        obtain ⟨next, hnext⟩ := appendNode_ok hlimits hsub hlength h hfits
        obtain ⟨s', hs'⟩ := (ih hnodes (appendNode_holds hlimits hsub h hnext).2).mpr hrest
        exact ⟨s', next, hnext, hs'⟩

theorem foldlM_holds (hlimits : WithinLimits dateParse limits storage nodes)
    (hnodes : nodes = done ++ rest) (h : Holds dateParse limits done s)
    (hrun : rest.foldlM (appendNode dateParse limits storage) s = .ok s') :
    Holds dateParse limits nodes s' := by
  induction rest generalizing done s with
  | nil =>
      obtain rfl := pure_eq_ok.mp hrun
      rw [hnodes, List.append_nil]
      exact h
  | cons node rest ih =>
      have hsub : ∀ x ∈ done ++ [node], x ∈ nodes := by
        intro x hx
        rw [hnodes, List.append_cons]
        exact List.mem_append_left _ hx
      rw [List.append_cons] at hnodes
      rw [List.foldlM_cons, bind_eq_ok] at hrun
      obtain ⟨next, hnext, hrest⟩ := hrun
      exact ih hnodes (appendNode_holds hlimits hsub h hnext).2 hrest

theorem nodup_of_allFit (hdone : (done.map (·.path)).Nodup) (h : AllFit dateParse done nodes) :
    ((done ++ nodes).map (·.path)).Nodup := by
  induction nodes generalizing done with
  | nil => rwa [List.append_nil]
  | cons node nodes ih =>
      obtain ⟨hfits, hrest⟩ := allFit_cons.mp h
      rw [List.append_cons]
      refine ih ?_ hrest
      rw [List.map_append, List.map_singleton]
      exact List.nodup_append.mpr ⟨hdone, List.nodup_singleton _, fun x hx y hy heq =>
        hfits.fresh (List.mem_singleton.mp hy ▸ heq ▸ hx)⟩

theorem totalSize_perm (h : nodes.Perm others) :
    totalSize nodes = totalSize others :=
  (h.map logicalSize).sum_nat

/-- That each node fits those before it does not depend on their order. -/
theorem allFit_iff : AllFit dateParse [] nodes ↔
    (∀ node ∈ nodes, NodeValid dateParse node) ∧ totalSize nodes ≤ Js.maxSafeInteger ∧
    (nodes.map (·.path)).Nodup := by
  constructor
  · intro h
    refine ⟨fun node hnode => ?_, ?_, ?_⟩
    · obtain ⟨before, after, heq⟩ := List.append_of_mem hnode
      exact (h before node after heq).valid
    · rcases List.eq_nil_or_concat nodes with rfl | ⟨before, node, heq⟩
      · exact Nat.zero_le _
      · rw [List.concat_eq_append] at heq
        have htotal := (h before node [] heq).total
        rwa [List.nil_append, ← heq] at htotal
    · have hnodup : (([] : List SnapshotNode).map (·.path)).Nodup := List.nodup_nil
      simpa using nodup_of_allFit hnodup h
  · rintro ⟨hvalid, htotal, hnodup⟩ before node after rfl
    refine ⟨hvalid node (by simp), ?_, ?_⟩
    · rw [List.append_cons, totalSize_append] at htotal
      rw [List.nil_append]
      omega
    · rw [List.map_append, List.map_cons, List.nodup_append] at hnodup
      intro hmem
      exact hnodup.2.2 _ hmem _ List.mem_cons_self rfl

/-! ## The tree -/

/-- The ancestors that are stored for a node are the paths it lies below. -/
theorem mem_parents_iff_below {other : String} (h : SafePath path) (h' : SafePath other) :
    path ∈ parents other.length other ↔ Below path other := by
  obtain ⟨names, name, hnames, hall, hname⟩ := h'.exists_concat
  have hother : other = ofNames (names ++ [name]) := by rw [← hnames, h'.ofNames_namesOf]
  have hfuel : names.length ≤ other.length := by
    have hlength := length_names_le h'.isName
    rw [h'.ofNames_namesOf, hnames, List.length_append, List.length_singleton] at hlength
    omega
  have hbelow := below_ofNames_iff (namesOf_ne_nil path) h.isName h'.isName
  rw [h.ofNames_namesOf, h'.ofNames_namesOf] at hbelow
  have hmem : path ∈ parents other.length (ofNames (names ++ [name])) ↔ _ :=
    mem_parents hall hname hfuel
  rw [← hother] at hmem
  rw [hmem, hbelow, hnames, List.prefix_concat_iff]
  constructor
  · rintro ⟨front, hne, hfront, rfl⟩
    have hsame : namesOf (ofNames front) = front :=
      namesOf_ofNames hne fun x hx => (hall x (hfront.subset hx)).2
    rw [hsame]
    refine ⟨.inr hfront, ?_⟩
    rintro rfl
    have hlength := hfront.length_le
    rw [List.length_append, List.length_singleton] at hlength
    omega
  · rintro ⟨heq | hfront, hdiff⟩
    · exact absurd heq hdiff
    · exact ⟨namesOf path, namesOf_ne_nil path, hfront, h.ofNames_namesOf.symm⟩

/-- The joined tables show a node below another that is no directory. -/
theorem conflicts_eq_false (hholds : Holds dateParse limits nodes s)
    (hvalid : ∀ node ∈ nodes, NodeValid dateParse node) :
    conflicts s.db = false ↔
    ∀ node ∈ nodes, ∀ other ∈ nodes, Below node.path other.path → node.type = .dir := by
  rw [conflicts, hholds.rows, List.any_map, List.any_eq_false]
  refine forall₂_congr fun node hnode => ?_
  have hcontains : s.db.ancestors.contains node.path = true ↔
      ∃ other ∈ nodes, Below node.path other.path := by
    rw [List.contains_iff_mem, hholds.ancestors]
    exact exists_congr fun other => and_congr_right fun hother =>
      mem_parents_iff_below (hvalid node hnode).path (hvalid other hother).path
  simp only [Function.comp_apply, rowOf, Bool.and_eq_true, bne_iff_ne, ne_eq, hcontains,
    not_and, not_exists]
  constructor
  · intro h other hother hbelow
    by_contra htype
    exact h htype other hother hbelow
  · exact fun h htype other hother hbelow => htype (h other hother hbelow)

/-- A snapshot is indexed exactly if it is valid, and the index then holds its nodes. -/
theorem build_eq_ok (hlimits : WithinLimits dateParse limits storage nodes) :
    build dateParse limits storage nodes = .ok manifest ↔
      Valid dateParse nodes ∧ manifest.rows = nodes.map (rowOf dateParse) := by
  have hstart := holds_start hlimits
  have hpages := hlimits.pages
  unfold build
  simp only [bind_eq_ok, refuseIf_eq_ok, pure_eq_ok, decide_eq_false_iff_not, Nat.not_lt]
  constructor
  · rintro ⟨_, -, s, hrun, _, hconflicts, rfl⟩
    have hholds := foldlM_holds hlimits rfl hstart hrun
    obtain ⟨hvalid, htotal, hnodup⟩ :=
      allFit_iff.mp ((foldlM_appendNode hlimits rfl hstart).mp ⟨s, hrun⟩)
    exact ⟨⟨hvalid, htotal, hnodup, (conflicts_eq_false hholds hvalid).mp hconflicts⟩, hholds.rows⟩
  · rintro ⟨⟨hvalid, htotal, hnodup, htree⟩, hrows⟩
    obtain ⟨s, hrun⟩ :=
      (foldlM_appendNode hlimits rfl hstart).mpr (allFit_iff.mpr ⟨hvalid, htotal, hnodup⟩)
    have hholds := foldlM_holds hlimits rfl hstart hrun
    refine ⟨(), hpages, s, hrun, (), (conflicts_eq_false hholds hvalid).mpr htree, ?_⟩
    obtain ⟨rows, nodup⟩ := manifest
    have hsame : s.db.nodes.rows = rows := hholds.rows.trans hrows.symm
    subst hsame
    rfl

/-- What is asked of a snapshot does not depend on the order of its nodes. -/
theorem Valid.perm (h : Valid dateParse nodes) (hperm : nodes.Perm others) :
    Valid dateParse others where
  node := fun node hnode => h.node node (hperm.mem_iff.mpr hnode)
  total := totalSize_perm hperm ▸ h.total
  nodup := (hperm.map _).nodup_iff.mp h.nodup
  tree := fun node hnode other hother =>
    h.tree node (hperm.mem_iff.mpr hnode) other (hperm.mem_iff.mpr hother)

theorem WithinLimits.perm (h : WithinLimits dateParse limits storage nodes)
    (hperm : nodes.Perm others) :
    WithinLimits dateParse limits storage others where
  entries := hperm.length_eq ▸ h.entries
  defaults := h.defaults
  pages := h.pages
  room := fun db hdb =>
    h.room db ⟨fun row hrow => (hdb.rows row hrow).imp fun _ => .imp_left hperm.mem_iff.mpr,
    fun path hpath => (hdb.ancestors path hpath).imp fun _ => .imp_left hperm.mem_iff.mpr⟩

end

end Pluton.SnapshotIndex
