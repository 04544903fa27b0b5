-- SUMMARY: When one path contains another: prefixes at a slash, and managed snapshot paths.
import Pluton.Forest
import Pluton.Restore.Browser
import Pluton.Tar.Policy

/-!
# Containment of paths

Behind its canonical form with a slash at its end, a path contains another exactly if it is
a prefix of it. So containment is a preorder, and the paths that contain one path are
comparable.
-/
namespace Pluton.Restore

open Tar

/-- The canonical path with a slash at its end. -/
def key (path : String) : List Char :=
  (if canonical path == "/" then [] else (canonical path).toList) ++ ['/']

theorem canonical_ne_nil (path : String) : (canonical path).toList ≠ [] := by
  unfold canonical
  dsimp only
  generalize (if Js.endsWith "/" _ then _ else _ : String) = bare
  intro hnil
  split at hnil
  · exact absurd hnil (by decide)
  · next hbare =>
      obtain rfl : bare = "" := String.toList_inj.mp hnil
      exact hbare rfl

theorem contains_iff (parent child : String) :
    contains parent child = true ↔ key parent <+: key child := by
  have hparent := canonical_ne_nil parent
  have hchild := canonical_ne_nil child
  unfold contains key Js.startsWith
  generalize canonical parent = p at hparent
  generalize canonical child = c at hchild
  have hroot : "/".toList = ['/'] := by decide
  have hstart : ((if p == "/" then "" else p) ++ "/").toList =
      (if p == "/" then [] else p.toList) ++ ['/'] := by
    rw [String.toList_append, hroot]
    split <;> rfl
  rw [hstart, Bool.or_eq_true, beq_iff_eq, List.isPrefixOf_iff_prefix]
  by_cases hc : c = "/"
  · subst hc
    have hroot' : (if "/" == "/" then [] else "/".toList) ++ ['/'] = "/".toList := by decide
    rw [hroot']
    refine ⟨fun h => ?_, .inr⟩
    rcases h with rfl | h
    · simp only [hroot', List.prefix_refl]
    · exact h
  · have hc' : (if c == "/" then [] else c.toList) = c.toList := by simp [hc]
    rw [hc']
    constructor
    · rintro (rfl | h)
      · simp only [hc', List.prefix_refl]
      · exact h.trans (List.prefix_append _ _)
    · intro h
      rcases List.prefix_concat_iff.mp h with heq | h
      · refine .inl (String.toList_inj.mp ?_)
        have hp := List.append_cancel_right heq
        by_cases hroot : p = "/"
        · rw [if_pos (by simpa using hroot)] at hp
          exact absurd hp.symm hchild
        · rwa [if_neg (by simpa using hroot)] at hp
      · exact .inr h

/-- `parent` contains `child`. -/
def Contains (parent child : String) : Prop := contains parent child = true

instance (parent child : String) : Decidable (Contains parent child) :=
  inferInstanceAs (Decidable (contains parent child = true))

instance : IsPreorder String Contains where
  refl path := (contains_iff path path).mpr (List.prefix_refl _)
  trans _ _ _ h h' :=
    (contains_iff _ _).mpr (((contains_iff _ _).mp h).trans ((contains_iff _ _).mp h'))

theorem linear_contains : Forest.Linear Contains := by
  intro a b c ha hb
  rcases List.prefix_or_prefix_of_prefix ((contains_iff _ _).mp ha)
    ((contains_iff _ _).mp hb) with h | h
  · exact .inl ((contains_iff _ _).mpr h)
  · exact .inr ((contains_iff _ _).mpr h)

/-! ## Managed paths -/

/-- An exact safe path of a snapshot. -/
def Managed (path : String) : Prop := managedSnapshotPath path = .ok path

instance (path : String) : Decidable (Managed path) :=
  inferInstanceAs (Decidable (managedSnapshotPath path = .ok path))

variable {path : String}

/-- A managed path starts with a slash, and none of the names after it is empty. -/
theorem Managed.shape (h : Managed path) :
    '\\' ∉ path.toList ∧ ∃ rest, path.toList = '/' :: rest ∧ [] ∉ rest.splitOn '/' := by
  unfold Managed managedSnapshotPath at h
  split at h
  · cases h
  · next hsafe =>
      simp only [Bool.or_eq_true, not_or, Bool.not_eq_true, List.any_eq_false,
        Bool.not_eq_false'] at hsafe
      obtain ⟨⟨⟨⟨⟨-, hstart⟩, hplain⟩, -⟩, -⟩, hparts⟩ := hsafe
      refine ⟨by simpa [Js.includes] using hplain, ?_⟩
      obtain ⟨rest, hrest⟩ := List.isPrefixOf_iff_prefix.mp hstart
      have hpath : path.toList = '/' :: rest := hrest.symm
      refine ⟨rest, hpath, fun hempty => ?_⟩
      have hmem : "" ∈ Js.split '/' (String.ofList (path.toList.drop 1)) := by
        rw [hpath]
        unfold Js.split
        rw [String.toList_ofList]
        exact List.mem_map.mpr ⟨[], hempty, rfl⟩
      exact absurd (hparts "" hmem).1.1 (by decide)

theorem Managed.not_slash (h : Managed path) :
    ∀ chars, path.toList ≠ chars ++ ['/'] := by
  obtain ⟨-, rest, hpath, hnames⟩ := h.shape
  intro chars hends
  rw [hpath] at hends
  cases chars with
  | nil =>
      obtain rfl : rest = [] := (List.cons.inj hends).2
      exact hnames (by simp)
  | cons ch chars =>
      obtain rfl : rest = chars ++ ['/'] := (List.cons.inj hends).2
      refine hnames ?_
      rw [List.splitOn_append_cons_self]
      simp

theorem Managed.canonical (h : Managed path) : canonical path = path := by
  obtain ⟨hplain, rest, hpath, hnames⟩ := h.shape
  have hslashed :
      String.ofList (path.toList.map fun ch => if ch == '\\' then '/' else ch) = path := by
    have hmap : (path.toList.map fun ch => if ch == '\\' then '/' else ch) =
        path.toList.map id := by
      refine List.map_congr_left fun ch hch => ?_
      have hne : ch ≠ '\\' := fun heq => hplain (heq ▸ hch)
      simp [hne]
    rw [hmap, List.map_id, String.ofList_toList]
  have hends : Js.endsWith "/" path = false := by
    cases hcase : Js.endsWith "/" path with
    | false => rfl
    | true =>
        obtain ⟨chars, hchars⟩ := List.isSuffixOf_iff_suffix.mp hcase
        exact absurd hchars.symm (h.not_slash chars)
  have hempty : path.isEmpty = false := by
    cases hcase : path.isEmpty with
    | false => rfl
    | true =>
        obtain rfl : path = "" := String.isEmpty_iff.mp hcase
        cases hpath
  unfold Restore.canonical
  simp only [hslashed, hends, hempty, Bool.false_eq_true, if_false]

theorem Managed.key (h : Managed path) : key path = path.toList ++ ['/'] := by
  obtain ⟨-, rest, hpath, hnames⟩ := h.shape
  have hroot : path ≠ "/" := by
    rintro rfl
    obtain rfl : rest = [] := (List.cons.inj hpath).2.symm
    exact hnames (by simp)
  unfold Restore.key
  rw [h.canonical, if_neg (by simpa using hroot)]

/-- A managed path contains another if it is the same or followed by a slash in it. -/
theorem Managed.contains_iff {parent child : String} (h : Managed parent) (h' : Managed child) :
    Contains parent child ↔ parent = child ∨ parent.toList ++ ['/'] <+: child.toList := by
  unfold Contains
  rw [Restore.contains_iff, h.key, h'.key, List.prefix_concat_iff]
  refine or_congr_left ?_
  rw [List.append_left_inj, String.toList_inj]

theorem Managed.antisymm {path path' : String} (h : Managed path) (h' : Managed path')
    (hle : Contains path path') (hge : Contains path' path) : path = path' := by
  have hkey :=
    ((Restore.contains_iff _ _).mp hle).eq_of_length_le
    ((Restore.contains_iff _ _).mp hge).length_le
  rw [h.key, h'.key] at hkey
  exact String.toList_inj.mp (List.append_cancel_right hkey)

/-! ## Parents -/

/-- A path from the root without empty names. -/
def Rooted (path : String) : Prop := ∃ rest, path.toList = '/' :: rest ∧ [] ∉ rest.splitOn '/'

theorem not_rooted_root : ¬ Rooted "/" := by
  rintro ⟨rest, hpath, hnames⟩
  obtain rfl : rest = [] := (List.cons.inj (hpath : ['/'] = '/' :: rest)).2.symm
  exact hnames (by simp)

theorem Managed.rooted (h : Managed path) : Rooted path := h.shape.2

/-- A rooted path is a name below the root, or below another rooted path, which is its
directory name. -/
theorem Rooted.parent (h : Rooted path) :
    ∃ front name, path.toList = front ++ '/' :: name ∧ '/' ∉ name ∧
    (front = [] ∧ Posix.dirname path = "/" ∨
      Rooted (String.ofList front) ∧ Posix.dirname path = String.ofList front) := by
  obtain ⟨rest, hpath, hnames⟩ := h
  by_cases hslash : '/' ∈ rest
  · obtain ⟨before, after, hreverse, hafter⟩ :=
      List.eq_append_cons_of_mem (List.mem_reverse.mpr hslash)
    have hrest : rest = after.reverse ++ '/' :: before.reverse := by
      rw [← List.reverse_reverse rest, hreverse]
      simp
    have hname : '/' ∉ before.reverse := fun hmem => hafter (List.mem_reverse.mp hmem)
    rw [hrest, List.splitOn_append_cons_self, List.mem_append, not_or] at hnames
    have hnonempty : before.reverse ≠ [] := by
      intro hempty
      rw [hempty] at hnames
      exact hnames.2 (by simp)
    have hfront : '/' :: after.reverse ≠ ['/'] := by
      intro hroot
      rw [(List.cons.inj hroot).2] at hnames
      exact hnames.1 (by simp)
    have hshape : path.toList = ('/' :: after.reverse) ++ '/' :: before.reverse := by
      rw [hpath, hrest, List.cons_append]
    refine ⟨'/' :: after.reverse, before.reverse, hshape, hname,
      .inr ⟨⟨after.reverse, ?_, hnames.1⟩, ?_⟩⟩
    · rw [String.toList_ofList]
    · exact Posix.dirname_below hshape (List.cons_ne_nil _ _) hfront hnonempty hname
  · rw [List.splitOn_eq_singleton hslash] at hnames
    have hname : rest ≠ [] := fun hempty => hnames (by simp [hempty])
    exact ⟨[], rest, hpath, hslash, .inl ⟨rfl, Posix.dirname_root hpath hname hslash⟩⟩

/-- A text with a slash behind it starts a path exactly if it is empty, or the part of the
path in front of its last name, or starts this part. -/
theorem slash_prefix_iff {text front name : List Char} (hslash : '/' ∉ name) :
    text ++ ['/'] <+: front ++ '/' :: name ↔ text = front ∨ text ++ ['/'] <+: front := by
  constructor
  · intro h
    have hfront : front <+: front ++ '/' :: name := List.prefix_append _ _
    rcases List.prefix_or_prefix_of_prefix h hfront with hle | hge
    · exact .inr hle
    · rcases List.prefix_concat_iff.mp hge with heq | ⟨more, rfl⟩
      · rw [heq]
        exact .inr (List.prefix_refl _)
      · -- the slash is the one behind `front`, as there is none in the last name
        rw [List.append_assoc, List.prefix_append_right_inj] at h
        cases more with
        | nil => exact .inl (List.append_nil front)
        | cons ch more =>
            rw [List.cons_append, List.cons_prefix_cons] at h
            exact absurd (h.2.subset (by simp)) hslash
  · rintro (rfl | h)
    · exact ⟨name, by simp⟩
    · exact h.trans (List.prefix_append _ _)

/-! ## Lists of entries -/

/-- The entries of a snapshot: their paths are exact and differ, and nothing is below an
entry that is no directory. -/
structure Tree (files : List RestoreEntry) : Prop where
  nodup : (files.map RestoreEntry.path).Nodup
  managed : ∀ file ∈ files, Managed file.path
  leaf : ∀ file ∈ files, ∀ other ∈ files, Contains file.path other.path → file.path ≠ other.path →
    file.isDirectory = true

/-- The paths of the entries. -/
def paths (files : List RestoreEntry) : Set String := {path | ∃ file ∈ files, file.path = path}

theorem Tree.unique {files : List RestoreEntry} (h : Tree files) {file other : RestoreEntry}
    (hfile : file ∈ files) (hother : other ∈ files) (hpath : file.path = other.path) :
    file = other :=
  List.inj_on_of_nodup_map h.nodup hfile hother hpath

/-- Entries of which each is below the root or in a listed directory. -/
theorem Tree.of_parents {files : List RestoreEntry} (nodup : (files.map RestoreEntry.path).Nodup)
    (managed : ∀ file ∈ files, Managed file.path)
    (hparents : ∀ file ∈ files, Posix.dirname file.path = "/" ∨
      ∃ parent ∈ files, parent.isDirectory = true ∧ parent.path = Posix.dirname file.path) :
      Tree files where
  nodup := nodup
  managed := managed
  leaf := by
    intro file hfile other hother hcontains hne
    induction hlength : other.path.length using Nat.strong_induction_on generalizing other with
    | _ n ih =>
        have hbelow :=
          ((managed file hfile).contains_iff (managed other hother)).mp
          hcontains |>.resolve_left hne
        obtain ⟨front, name, hpath, hslash, hfront⟩ := (managed other hother).rooted.parent
        rw [hpath, slash_prefix_iff hslash] at hbelow
        have hrooted : file.path.toList ≠ [] := by
          obtain ⟨rest, hrest, -⟩ := (managed file hfile).rooted
          rw [hrest]
          exact List.cons_ne_nil _ _
        rcases hfront with ⟨rfl, -⟩ | ⟨hparent, hdirname⟩
        · rcases hbelow with hnil | hnil
          · exact absurd hnil hrooted
          · exact absurd (List.prefix_nil.mp hnil) (by simp)
        · rcases hparents other hother with hroot | ⟨parent, hparent, hdirectory, hsame⟩
          · exact absurd (hroot ▸ hdirname.symm ▸ hparent) not_rooted_root
          · have hfront : parent.path.toList = front := by
              rw [hsame, hdirname, String.toList_ofList]
            by_cases heq : file.path = parent.path
            · rw [List.inj_on_of_nodup_map nodup hfile hparent heq]
              exact hdirectory
            · refine ih parent.path.length ?_ parent hparent ?_ heq rfl
              · rw [← hlength, ← String.length_toList, ← String.length_toList, hpath, hfront]
                simp
              · refine ((managed file hfile).contains_iff (managed parent hparent)).mpr (.inr ?_)
                rw [hfront]
                refine hbelow.resolve_left fun htext =>
                  heq (String.toList_inj.mp (htext.trans hfront.symm))

end Pluton.Restore
