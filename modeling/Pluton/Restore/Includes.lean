-- SUMMARY: What the server chooses of an index, and the subtrees that are given to the restore.
import Pluton.Restore.Server
import Pluton.Restore.Toggle

/-!
# Chosen nodes and includes

The chosen nodes are those that the configuration covers and the directories above them. The
includes are the topmost of the nodes whose subtrees are chosen as a whole.
-/
namespace Pluton.Restore.Server

open Tar

/-- An index whose paths are safe, with nothing below a node that is no directory. -/
structure Indexed (index : ManagedSnapshotIndex) : Prop where
  managed : ∀ node ∈ index.nodes, Managed node.path
  leaf : ∀ node ∈ index.nodes, ∀ other ∈ index.nodes, Contains node.path other.path →
    node.path ≠ other.path →
    node.type = .dir

variable {index : ManagedSnapshotIndex} {chosen selected : List ManagedSnapshotNode}
  {file node : ManagedSnapshotNode} {path x : String}

/-! ## Nodes by their paths -/

theorem node_unique {node node' : ManagedSnapshotNode} (hnode : node ∈ index.nodes)
    (hnode' : node' ∈ index.nodes) (hpath : node.path = node'.path) : node = node' :=
  List.inj_on_of_nodup_map index.nodup hnode hnode' hpath

theorem get_eq_some : index.get path = some node ↔ node ∈ index.nodes ∧ node.path = path := by
  unfold ManagedSnapshotIndex.get
  constructor
  · intro hget
    exact ⟨List.mem_of_find?_eq_some hget, by simpa using List.find?_some hget⟩
  · rintro ⟨hnode, rfl⟩
    cases hcase : index.nodes.find? (·.path == node.path) with
    | none => exact absurd (List.find?_eq_none.mp hcase node hnode) (by simp)
    | some other =>
        have hpath : other.path = node.path := by simpa using List.find?_some hcase
        rw [node_unique (List.mem_of_find?_eq_some hcase) hnode hpath]

/-! ## Containment on the server -/

theorem contains_iff {parent child : String} (h : Managed parent) (h' : Managed child) :
    contains parent child = true ↔ Contains parent child := by
  have hslash : "/".toList = ['/'] := by decide
  rw [h.contains_iff h']
  unfold contains Js.startsWith
  rw [Bool.or_eq_true, beq_iff_eq, List.isPrefixOf_iff_prefix, String.toList_append, hslash]

theorem mem_parents {fuel : Nat} (h : Rooted path) (hfuel : path.length ≤ fuel) :
    x ∈ Posix.parents fuel path ↔ x ≠ "" ∧ x.toList ++ ['/'] <+: path.toList := by
  induction fuel generalizing path with
  | zero =>
      obtain ⟨rest, hpath, -⟩ := h
      rw [← String.length_toList, hpath] at hfuel
      exact absurd hfuel (by simp)
  | succ fuel ih =>
      obtain ⟨front, name, hpath, hslash, hfront⟩ := h.parent
      unfold Posix.parents
      dsimp only
      rw [hpath, slash_prefix_iff hslash]
      rcases hfront with ⟨rfl, hdirname⟩ | ⟨hrooted, hdirname⟩
      · rw [hdirname, if_pos (by simp)]
        refine iff_of_false List.not_mem_nil ?_
        rintro ⟨hne, hnil | hnil⟩
        · exact hne (String.toList_inj.mp hnil)
        · exact absurd (List.prefix_nil.mp hnil) (by simp)
      · have hroot : String.ofList front ≠ "/" := fun heq => not_rooted_root (heq ▸ hrooted)
        have hlength : (String.ofList front).length ≤ fuel := by
          rw [← String.length_toList, hpath] at hfuel
          rw [← String.length_toList, String.toList_ofList]
          simp only [List.length_append, List.length_cons] at hfuel
          omega
        have hne : String.ofList front ≠ "" := by
          rintro heq
          obtain ⟨rest, hrest, -⟩ := hrooted
          rw [heq] at hrest
          cases hrest
        rw [hdirname, if_neg (by simpa using hroot), List.mem_cons, ih hrooted hlength,
          String.toList_ofList]
        constructor
        · rintro (rfl | ⟨hx, habove⟩)
          · exact ⟨hne, .inl String.toList_ofList⟩
          · exact ⟨hx, .inr habove⟩
        · rintro ⟨hx, heq | habove⟩
          · exact .inl (String.toList_inj.mp (heq.trans String.toList_ofList.symm))
          · exact .inr ⟨hx, habove⟩

theorem mem_parentsOf {child : String} (h : Managed x) (h' : Managed child) :
    x ∈ parentsOf child ↔ Contains x child ∧ x ≠ child := by
  have hne : x ≠ "" := by
    rintro rfl
    obtain ⟨rest, hrest, -⟩ := h.rooted
    cases hrest
  have hstrict : x.toList ++ ['/'] <+: child.toList → x ≠ child := by
    rintro hle rfl
    exact absurd hle.length_le (by simp)
  unfold parentsOf
  rw [mem_parents h'.rooted (Nat.le_refl _), h.contains_iff h', and_iff_right hne]
  exact ⟨fun hle => ⟨.inr hle, hstrict hle⟩, fun hboth => hboth.1.resolve_left hboth.2⟩

/-! ## The chosen nodes -/

theorem has_iff : has chosen path = true ↔ ∃ node ∈ chosen, node.path = path := by
  unfold has
  simp only [List.any_eq_true, beq_iff_eq]

/-- Nodes of the index, each once. -/
structure Among (index : ManagedSnapshotIndex) (chosen : List ManagedSnapshotNode) : Prop where
  subset : ∀ node ∈ chosen, node ∈ index.nodes
  nodup : chosen.Nodup

theorem Among.has_node (h : Among index chosen) (hnode : node ∈ index.nodes) :
    has chosen node.path = true ↔ node ∈ chosen := by
  rw [has_iff]
  constructor
  · rintro ⟨other, hother, hpath⟩
    rw [← node_unique (h.subset other hother) hnode hpath]
    exact hother
  · intro hmem
    exact ⟨node, hmem, rfl⟩

/-- `after` is `before` with the nodes of `add`. -/
structure Grown (index : ManagedSnapshotIndex) (before after : List ManagedSnapshotNode)
    (add : ManagedSnapshotNode → Prop) :
    Prop where
  among : Among index after
  mem : ∀ node, node ∈ after ↔ node ∈ before ∨ add node

theorem Among.grown (h : Among index chosen) {add : ManagedSnapshotNode → Prop}
    (hnone : ∀ node, ¬ add node) :
    Grown index chosen chosen add :=
  ⟨h, fun node => by rw [or_iff_left (hnone node)]⟩

theorem grown_setNode (h : Among index chosen) (hfile : file ∈ index.nodes) :
    Grown index chosen (setNode chosen file) (· = file) := by
  unfold setNode
  split
  · next hhas =>
      have hmem : file ∈ chosen := (h.has_node hfile).mp hhas
      have hmap :
          (chosen.map fun node => if node.path == file.path then file else node) = chosen := by
        refine (List.map_congr_left fun node hnode => ?_).trans (List.map_id chosen)
        split
        · next heq => exact node_unique hfile (h.subset node hnode) (beq_iff_eq.mp heq).symm
        · rfl
      rw [hmap]
      refine ⟨h, fun node => ⟨.inl, ?_⟩⟩
      rintro (hnode | rfl)
      · exact hnode
      · exact hmem
  · next hnot =>
      have hnew : file ∉ chosen := fun hmem => hnot ((h.has_node hfile).mpr hmem)
      refine ⟨⟨?_, ?_⟩, fun node => by simp⟩
      · intro node hnode
        rcases List.mem_append.mp hnode with hnode | hnode
        · exact h.subset node hnode
        · rw [List.mem_singleton.mp hnode]
          exact hfile
      · refine List.nodup_append.mpr ⟨h.nodup, List.nodup_singleton file, ?_⟩
        rintro node hnode _ hfile' rfl
        exact hnew (List.mem_singleton.mp hfile' ▸ hnode)

/-- A loop adds what its turns add, or refuses. -/
theorem ends_grown {σ α : Type} {f : σ → α → Except AppError σ} (map : σ → List ManagedSnapshotNode)
    {add : α → ManagedSnapshotNode → Prop} {list : List α}
    (hf : ∀ s, ∀ a ∈ list, Among index (map s) →
      (f s a).Ends (fun s' => Grown index (map s) (map s') (add a)) (· = tooLarge))
    {s : σ} (hs : Among index (map s)) :
    (list.foldlM f s).Ends (fun s' => Grown index (map s) (map s') fun node => ∃ a ∈ list,
      add a node) (· = tooLarge) := by
  induction list generalizing s with
  | nil => exact hs.grown (by simp)
  | cons a rest ih =>
      rw [List.foldlM_cons]
      refine (hf s a List.mem_cons_self hs).bind fun next hnext => ?_
      refine (ih (fun s a hmem => hf s a (List.mem_cons_of_mem _ hmem)) hnext.among).mono
        (fun last hlast => ?_) fun _ => id
      refine ⟨hlast.among, fun node => ?_⟩
      rw [hlast.mem, hnext.mem, or_assoc]
      simp only [List.mem_cons, exists_eq_or_imp]

theorem ends_chooseFile {config : RestoreConfig} {state : List ManagedSnapshotNode × Nat}
    (hfile : file ∈ index.nodes) (h : Among index state.1) : (chooseFile config state file).Ends
      (fun state' => Grown index state.1 state'.1 fun node =>
        config.covers file.path = true ∧ node = file) (· = tooLarge) := by
  unfold chooseFile
  dsimp only
  split
  · next hcovers =>
      refine .ite (fun _ => rfl) fun _ => ?_
      have hgrown := grown_setNode h hfile
      exact ⟨hgrown.among, fun node => by rw [hgrown.mem, and_iff_right hcovers]⟩
  · next hnot => exact h.grown fun node hboth => hnot hboth.1

theorem ends_chooseParent (h : Among index chosen) : (chooseParent index chosen path).Ends
    (fun chosen' => Grown index chosen chosen' fun node =>
      node ∈ index.nodes ∧ node.path = path ∧ node.type = .dir)
    (· = tooLarge) := by
  unfold chooseParent
  dsimp only
  refine .ite (fun _ => rfl) fun _ => ?_
  cases hget : index.get path with
  | none =>
      refine h.grown fun node hnode => ?_
      rw [get_eq_some.mpr ⟨hnode.1, hnode.2.1⟩] at hget
      cases hget
  | some directory =>
      obtain ⟨hdirectory, hpath⟩ := get_eq_some.mp hget
      have honly : ∀ node ∈ index.nodes, node.path = path →
          node = directory := fun node hnode hsame =>
        node_unique hnode hdirectory (hsame.trans hpath.symm)
      dsimp only
      split
      · next htype =>
          have hgrown := grown_setNode h hdirectory
          refine ⟨hgrown.among, fun node => ?_⟩
          rw [hgrown.mem]
          refine or_congr_right ⟨?_, fun hnode => honly node hnode.1 hnode.2.1⟩
          rintro rfl
          exact ⟨hdirectory, hpath, beq_iff_eq.mp htype⟩
      · next htype =>
          refine h.grown fun node hnode => htype ?_
          rw [← honly node hnode.1 hnode.2.1]
          exact beq_iff_eq.mpr hnode.2.2

/-- What is chosen is what the configuration covers and the directories above it. -/
theorem ends_choose {config : RestoreConfig} : (choose index config).Ends
    (fun chosen => Among index chosen ∧ ∀ node, node ∈ chosen ↔
      node ∈ index.nodes ∧ (config.covers node.path = true ∨
      node.type = .dir ∧ ∃ file ∈ index.nodes, config.covers file.path = true ∧
      node.path ∈ parentsOf file.path))
    (· = tooLarge) := by
  have hnone : Among index [] := ⟨nofun, List.nodup_nil⟩
  have hfirst : (index.nodes.foldlM (chooseFile config) ([], 0)).Ends (fun state =>
      Grown index [] state.1 fun node =>
        ∃ file ∈ index.nodes, config.covers file.path = true ∧ node = file) (· = tooLarge) :=
    ends_grown (f := chooseFile config) (s := ([], 0)) (fun state => state.1)
      (fun state file hfile h => ends_chooseFile hfile h) hnone
  refine hfirst.bind fun state hstate => ?_
  have hparents : ∀ chosen, ∀ file ∈ state.1, Among index chosen →
      (chooseParents index chosen file).Ends (fun chosen' =>
        Grown index chosen chosen' fun node => ∃ parent ∈ parentsOf file.path,
          node ∈ index.nodes ∧ node.path = parent ∧
          node.type = .dir) (· = tooLarge) := fun chosen file _ h =>
    ends_grown (f := chooseParent index) id (fun _ _ _ h => ends_chooseParent h) h
  refine (ends_grown id hparents hstate.among).mono (fun last hlast =>
    ⟨hlast.among, fun node => ?_⟩) fun _ => id
  have hcovered : ∀ node, node ∈ state.1 ↔ node ∈ index.nodes ∧ config.covers node.path = true := by
    intro node
    rw [hstate.mem, or_iff_right List.not_mem_nil]
    constructor
    · rintro ⟨_, hfile, hcovers, rfl⟩
      exact ⟨hfile, hcovers⟩
    · rintro ⟨hnode, hcovers⟩
      exact ⟨node, hnode, hcovers, rfl⟩
  have hmem := hlast.mem node
  rw [id, id, hcovered] at hmem
  rw [hmem]
  constructor
  · rintro (⟨hnode, hcovers⟩ | ⟨file, hfile, _, hparent, hnode, rfl, htype⟩)
    · exact ⟨hnode, .inl hcovers⟩
    · obtain ⟨hfile, hcovers⟩ := (hcovered file).mp hfile
      exact ⟨hnode, .inr ⟨htype, file, hfile, hcovers, hparent⟩⟩
  · rintro ⟨hnode, hcovers | ⟨htype, file, hfile, hcovers, hparent⟩⟩
    · exact .inl ⟨hnode, hcovers⟩
    · exact .inr ⟨file, (hcovered file).mpr ⟨hfile, hcovers⟩, node.path, hparent, hnode, rfl, htype⟩

/-! ## The complete subtrees -/

theorem mem_foldl_addTo_if {cond : String → Bool} {list set : List String} :
    x ∈ list.foldl (fun set text => if cond text then addTo set text else set) set ↔
      x ∈ set ∨ x ∈ list ∧ cond x = true := by
  induction list generalizing set with
  | nil => simp
  | cons text rest ih =>
      rw [List.foldl_cons, ih, List.mem_cons, or_and_right, ← or_assoc]
      refine or_congr_left ?_
      split
      · next htrue =>
          rw [mem_addTo]
          exact or_congr_right ⟨fun heq => ⟨heq, heq ▸ htrue⟩, And.left⟩
      · next hfalse =>
          rw [or_iff_left]
          rintro ⟨rfl, htrue⟩
          exact hfalse htrue

theorem mem_incomplete : x ∈ incomplete index chosen ↔
    has chosen x = true ∧ ∃ file ∈ index.nodes, has chosen file.path = false ∧
    x ∈ parentsOf file.path := by
  have hloop : ∀ (nodes : List ManagedSnapshotNode) (set : List String),
      x ∈ nodes.foldl (fun incomplete file =>
          if has chosen file.path then incomplete
          else (parentsOf file.path).foldl (fun incomplete parent =>
            if has chosen parent then addTo incomplete parent else incomplete) incomplete) set ↔
        x ∈ set ∨ has chosen x = true ∧ ∃ file ∈ nodes,
          has chosen file.path = false ∧ x ∈ parentsOf file.path := by
    intro nodes
    induction nodes with
    | nil => simp
    | cons file rest ih =>
        intro set
        rw [List.foldl_cons, ih]
        simp only [List.mem_cons, exists_eq_or_imp, and_or_left, ← or_assoc]
        refine or_congr_left ?_
        cases hhas : has chosen file.path with
        | true => simp
        | false =>
            rw [if_neg nofun, mem_foldl_addTo_if, and_iff_right rfl]
            exact or_congr_right and_comm
  unfold incomplete
  rw [hloop, or_iff_right List.not_mem_nil]

/-- Everything at or below a path is selected. -/
def Full (index : ManagedSnapshotIndex) (selected : List ManagedSnapshotNode) (path : String) :
    Prop :=
  ∀ other ∈ index.nodes, Contains path other.path → other ∈ selected

theorem Full.mem (hnode : node ∈ index.nodes) (hfull : Full index selected node.path) :
    node ∈ selected :=
  hfull node hnode (refl_of Contains node.path)

theorem mem_completeSubtrees (h : Indexed index) (ha : Among index selected)
    (hnode : node ∈ index.nodes) :
    node ∈ completeSubtrees index selected ↔ node.type = .dir ∧ Full index selected node.path := by
  unfold completeSubtrees
  rw [List.mem_filter, Bool.and_eq_true, beq_iff_eq, Bool.not_eq_true', ← Bool.not_eq_true,
    List.contains_iff_mem, mem_incomplete]
  constructor
  · rintro ⟨hselected, htype, hcomplete⟩
    refine ⟨htype, fun other hother hcontains => ?_⟩
    by_contra hmissing
    have hpath : node.path ≠ other.path := by
      intro heq
      exact hmissing (node_unique hnode hother heq ▸ hselected)
    refine hcomplete ⟨(ha.has_node hnode).mpr hselected, other, hother, ?_, ?_⟩
    · exact Bool.eq_false_iff.mpr fun hhas => hmissing ((ha.has_node hother).mp hhas)
    · exact (mem_parentsOf (h.managed node hnode) (h.managed other hother)).mpr ⟨hcontains, hpath⟩
  · rintro ⟨htype, hfull⟩
    refine ⟨hfull.mem hnode, htype, ?_⟩
    rintro ⟨-, file, hfile, hhas, hparent⟩
    have hcontains := ((mem_parentsOf (h.managed node hnode) (h.managed file hfile)).mp hparent).1
    rw [(ha.has_node hfile).mpr (hfull file hfile hcontains)] at hhas
    cases hhas

/-- The complete subtrees and what is no directory. -/
def candidates (index : ManagedSnapshotIndex) (selected : List ManagedSnapshotNode) :
    List ManagedSnapshotNode :=
  completeSubtrees index selected ++ selected.filter fun file => file.type != .dir

theorem candidates_subset (ha : Among index selected) (hnode : node ∈ candidates index selected) :
    node ∈ index.nodes := by
  rcases List.mem_append.mp hnode with hmem | hmem
  · exact ha.subset node (List.mem_filter.mp hmem).1
  · exact ha.subset node (List.mem_filter.mp hmem).1

theorem mem_candidates (h : Indexed index) (ha : Among index selected)
    (hnode : node ∈ index.nodes) :
    node ∈ candidates index selected ↔ Full index selected node.path := by
  unfold candidates
  rw [List.mem_append, mem_completeSubtrees h ha hnode, List.mem_filter, bne_iff_ne]
  constructor
  · rintro (⟨-, hfull⟩ | ⟨hselected, htype⟩)
    · exact hfull
    · intro other hother hcontains
      by_cases hpath : node.path = other.path
      · exact node_unique hnode hother hpath ▸ hselected
      · exact absurd (h.leaf node hnode other hother hcontains hpath) htype
  · intro hfull
    by_cases htype : node.type = .dir
    · exact .inl ⟨htype, hfull⟩
    · exact .inr ⟨hfull.mem hnode, htype⟩

theorem include_node (ha : Among index selected) (hpath : path ∈ selectedIncludes index selected) :
    ∃ node ∈ index.nodes, node.path = path ∧ node ∈ candidates index selected := by
  obtain ⟨node, hnode, rfl⟩ := List.mem_map.mp hpath
  have hcandidate : node ∈ candidates index selected := (List.mem_filter.mp hnode).1
  exact ⟨node, candidates_subset ha hcandidate, rfl, hcandidate⟩

theorem full_of_include (h : Indexed index) (ha : Among index selected)
    (hpath : path ∈ selectedIncludes index selected) :
    Full index selected path := by
  obtain ⟨node, hnode, rfl, hcandidate⟩ := include_node ha hpath
  exact (mem_candidates h ha hnode).mp hcandidate

/-- A path with everything below it selected is at or below an include. -/
theorem include_of_full (h : Indexed index) (ha : Among index selected) (hnode : node ∈ index.nodes)
    (hfull : Full index selected node.path) :
    ∃ path ∈ selectedIncludes index selected, Contains path node.path := by
  induction hlength : node.path.length using Nat.strong_induction_on generalizing node with
  | _ n ih =>
      have hcandidate := (mem_candidates h ha hnode).mpr hfull
      cases habove : (completeSubtrees index selected).any fun parent =>
        parent != node && contains parent.path node.path with
      | false =>
          refine ⟨node.path, List.mem_map_of_mem (List.mem_filter.mpr ⟨hcandidate, ?_⟩),
            refl_of Contains node.path⟩
          rw [habove]
          rfl
      | true =>
          obtain ⟨parent, hparent, hboth⟩ := List.any_eq_true.mp habove
          rw [Bool.and_eq_true, bne_iff_ne] at hboth
          have hmem := candidates_subset ha (List.mem_append_left _ hparent)
          have hcontains := (contains_iff (h.managed parent hmem) (h.managed node hnode)).mp hboth.2
          have hpath : parent.path ≠ node.path := fun heq => hboth.1 (node_unique hmem hnode heq)
          have hshort : parent.path.length < n := by
            have hslash :=
              ((h.managed parent hmem).contains_iff (h.managed node hnode)).mp hcontains
            have hle := (hslash.resolve_left hpath).length_le
            rw [List.length_append, String.length_toList, String.length_toList,
              List.length_singleton] at hle
            omega
          obtain ⟨path, hpath, hinclude⟩ :=
            ih _ hshort hmem ((mem_completeSubtrees h ha hmem).mp hparent).2 rfl
          exact ⟨path, hpath, trans_of Contains hinclude hcontains⟩

end Pluton.Restore.Server
