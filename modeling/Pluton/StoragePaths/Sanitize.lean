-- SUMMARY: The storage path check of the server, and exactly which remote paths come out canonical.
import Pluton.Js
import Pluton.NodePath
import Pluton.TrimmedText

/-!
# Storage paths

`sanitizeStoragePath` looks for double dots in the normalized path, but for a remote storage it
returns the trimmed text itself: backslashes become slashes, and one slash goes at each end. What
stands behind that slash is not looked at again.
-/
namespace Pluton.StoragePaths

open NodePath

/-! ## The check -/

structure AppError where
  statusCode : Nat
  message : String
  deriving DecidableEq

def isTargetWindows (platform : String) : Option String → Bool
  | none | some "" => platform == "win32"
  | some targetOS => targetOS == "windows" || targetOS == "win32"

/-- The branch for local storage on Windows. -/
def windowsPath (trimmedPath normalizedPath : List Char) : Except AppError String :=
  let parsedRoot := win32Root normalizedPath
  if ((trimmedPath.take 2).filter win32Separator).length = 2 ∨ ['\\', '\\'] <+: parsedRoot then
    .error ⟨400,
      "Invalid Storage Destination path: Network (UNC) destinations are not supported. Map the share to a drive letter on the Pluton host, or add the share as an SMB storage."⟩
  else if parsedRoot = ['\\'] ∨ parsedRoot = ['/'] then
    .error ⟨400,
      "Invalid Storage Destination path: Include a drive letter (e.g., \"C:\\backups\")."⟩
  else match parsedRoot with
    -- What is left of the absolute paths are those behind the root of a drive.
    | [drive, ':', _] => .ok (String.ofList (win32Resolve drive (normalizedPath.drop 3)))
    | _ =>
        .error ⟨400,
          "Invalid Storage Destination path: An absolute path is required for local storage (e.g., \"C:\\home/user/backups\")."⟩

/-- The branch for local storage elsewhere. -/
def posixPath (normalizedPath : List Char) : Except AppError String :=
  if normalizedPath.head? = some '/' then .ok (String.ofList (posixResolve normalizedPath))
  else .error ⟨400,
    "Invalid Storage Destination path: An absolute path is required for local storage (e.g., \"/home/user/backups\")."⟩

def dropLeading (remotePath : List Char) : List Char :=
  if remotePath.head? = some '/' then remotePath.drop 1 else remotePath

def dropTrailing (remotePath : List Char) : List Char :=
  if remotePath.getLast? = some '/' ∧ 1 < remotePath.length then remotePath.dropLast else remotePath

/-- `startsWith('..') || includes('/../') || endsWith('/..')` -/
def Traverses (remotePath : List Char) : Prop :=
  dotdot <+: remotePath ∨ '/' :: dotdot ++ ['/'] <:+: remotePath ∨ '/' :: dotdot <:+ remotePath

instance (remotePath : List Char) : Decidable (Traverses remotePath) :=
  inferInstanceAs (Decidable (_ <+: _ ∨ _ <:+: _ ∨ _ <:+ _))

/-- What is left of a trimmed path for a remote storage. -/
def remotePath (trimmedPath : List Char) : List Char :=
  dropTrailing (dropLeading (toSlashes trimmedPath))

def sanitizeStoragePath (platform : String) (storagePath storageType : String)
    (targetOS : Option String) : Except AppError String :=
  let trimmedPath := (Js.trim storagePath).toList
  let isTargetWindows := isTargetWindows platform targetOS
  let normalizedPath :=
    if isTargetWindows then win32Normalize trimmedPath else posixNormalize trimmedPath
  if HasDots normalizedPath then
    .error ⟨400,
      "Invalid Storage Destination path: Directory traversal sequences (\"..\") are not allowed."⟩
  else if storageType = "local" then
    if isTargetWindows then windowsPath trimmedPath normalizedPath else posixPath normalizedPath
  else if Traverses (remotePath trimmedPath) then
    .error ⟨400, "Invalid path: Directory traversal not allowed."⟩
  else .ok (String.ofList (remotePath trimmedPath))

example : sanitizeStoragePath "linux" " /bucket\\plans/ " "s3" none = .ok "bucket/plans" := by
  decide +kernel

example : sanitizeStoragePath "linux" "D:/backups/" "local" (some "windows") =
    .ok "D:\\backups" := by decide +kernel

/-! ## The ends of a path -/

/-- A slash or white space, which a second pass takes from an end. -/
def Bare (ch : Char) : Prop := ch = '/' ∨ Js.isWhitespace ch = true

instance (ch : Char) : Decidable (Bare ch) := inferInstanceAs (Decidable (_ ∨ _))

/-- Neither end is a slash or white space. -/
structure Settled (path : List Char) : Prop where
  head : ∀ ch ∈ path.head?, ¬ Bare ch
  last : ∀ ch ∈ path.getLast?, ¬ Bare ch

/-- Behind a slash at an end there is no slash and no white space. -/
structure Clean (path : List Char) : Prop where
  head : ∀ ch back, path = '/' :: ch :: back → ¬ Bare ch
  last : ∀ front ch, path = front ++ [ch, '/'] → ¬ Bare ch

section
variable {path : List Char} {ch : Char}

theorem dropLeading_cons : dropLeading ('/' :: path) = path := rfl

theorem dropLeading_of_ne (h : path.head? ≠ some '/') : dropLeading path = path := if_neg h

theorem dropTrailing_of_ne (h : path.getLast? ≠ some '/') : dropTrailing path = path :=
  if_neg fun hslash => h hslash.1

theorem dropTrailing_concat (h : path ≠ []) : dropTrailing (path ++ ['/']) = path := by
  have hlength : 1 < (path ++ ['/']).length := by
    rw [List.length_append, List.length_singleton]
    exact Nat.lt_add_of_pos_left (List.length_pos_iff.mpr h)
  unfold dropTrailing
  rw [if_pos ⟨List.getLast?_concat, hlength⟩, List.dropLast_concat]

/-- A path is empty, one slash, or has its last character behind another one. -/
theorem dropTrailing_cases (path : List Char) :
    dropTrailing path = path ∧ (path.getLast? ≠ some '/' ∨ path = ['/']) ∨
    ∃ front, front ≠ [] ∧ path = front ++ ['/'] ∧ dropTrailing path = front := by
  by_cases hslash : path.getLast? = some '/'
  · obtain ⟨front, rfl⟩ := List.getLast?_eq_some_iff.mp hslash
    by_cases hfront : front = []
    · rw [hfront]
      exact .inl ⟨rfl, .inr rfl⟩
    · exact .inr ⟨front, hfront, rfl, dropTrailing_concat hfront⟩
  · exact .inl ⟨dropTrailing_of_ne hslash, .inl hslash⟩

theorem head?_dropTrailing (path : List Char) : (dropTrailing path).head? = path.head? := by
  rcases dropTrailing_cases path with ⟨heq, -⟩ | ⟨front, hne, rfl, heq⟩
  · rw [heq]
  · rw [heq, List.head?_append_of_ne_nil _ hne]

theorem suffix_dropLeading (path : List Char) : dropLeading path <:+ path := by
  unfold dropLeading
  split
  · exact List.drop_suffix 1 path
  · exact List.suffix_refl path

theorem prefix_dropTrailing (path : List Char) : dropTrailing path <+: path := by
  unfold dropTrailing
  split
  · exact List.dropLast_prefix path
  · exact List.prefix_refl path

/-- The first character is settled exactly if nothing bare was behind a slash in front. -/
theorem head_settled (hhead : ∀ ch ∈ path.head?, Js.isWhitespace ch = false) :
    (∀ ch ∈ (dropLeading path).head?, ¬ Bare ch) ↔
    ∀ ch back, path = '/' :: ch :: back → ¬ Bare ch := by
  by_cases hslash : path.head? = some '/'
  · obtain ⟨back, rfl⟩ : ∃ back, path = '/' :: back := by
      cases path with
      | nil => cases hslash
      | cons first back => exact ⟨back, congrArg (· :: back) (Option.some.inj hslash)⟩
    rw [dropLeading_cons]
    cases back with
    | nil => simp
    | cons next back => simp
  · rw [dropLeading_of_ne hslash]
    refine iff_of_true (fun ch hch hbare => ?_) fun ch back hpath => absurd (hpath ▸ rfl) hslash
    rcases hbare with rfl | hspace
    · exact hslash hch
    · exact Bool.false_ne_true ((hhead ch hch).symm.trans hspace)

/-- The slash in front stays clear of the last two characters, except where there are only these. -/
theorem dropLeading_concat_concat {front : List Char} (h : front ≠ [] ∨ ch ≠ '/') :
    ∃ more, dropLeading (front ++ [ch, '/']) = more ++ [ch, '/'] := by
  cases front with
  | nil =>
      exact ⟨[], dropLeading_of_ne fun hhead =>
        (h.resolve_left fun hne => hne rfl) (Option.some.inj hhead)⟩
  | cons first front =>
      by_cases hslash : first = '/'
      · rw [hslash]
        exact ⟨front, dropLeading_cons⟩
      · exact ⟨first :: front, dropLeading_of_ne fun hhead => hslash (Option.some.inj hhead)⟩

/-- The last character is settled exactly if nothing bare was in front of a slash at the end. -/
theorem last_settled (hlast : ∀ ch ∈ path.getLast?, Js.isWhitespace ch = false) :
    (∀ ch ∈ (dropTrailing (dropLeading path)).getLast?, ¬ Bare ch) ↔
    ∀ front ch, path = front ++ [ch, '/'] → ¬ Bare ch := by
  by_cases hslash : path.getLast? = some '/'
  · obtain ⟨front, rfl⟩ := List.getLast?_eq_some_iff.mp hslash
    rcases List.eq_nil_or_concat front with rfl | ⟨front, ch, rfl⟩
    · exact iff_of_true nofun fun front ch h => absurd (congrArg List.length h) (by simp)
    rw [List.concat_eq_append, List.append_assoc, List.singleton_append]
    have hright : (∀ front' ch', front ++ [ch, '/'] = front' ++ [ch', '/'] → ¬ Bare ch') ↔
        ¬ Bare ch := by
      refine ⟨fun h => h front ch rfl, fun h front' ch' heq => ?_⟩
      obtain ⟨-, htail⟩ := List.append_inj' heq rfl
      exact (List.cons.inj htail).1 ▸ h
    rw [hright]
    by_cases hmore : front ≠ [] ∨ ch ≠ '/'
    · obtain ⟨more, hdrop⟩ := dropLeading_concat_concat hmore
      have hcut : dropTrailing ((more ++ [ch]) ++ ['/']) = more ++ [ch] :=
        dropTrailing_concat (by simp)
      rw [List.append_assoc, List.singleton_append] at hcut
      rw [hdrop, hcut, List.getLast?_concat]
      simp
    · -- Of two slashes one is left, which is not taken from the end as it is alone.
      simp only [not_or, not_not] at hmore
      obtain ⟨rfl, rfl⟩ := hmore
      exact iff_of_false (fun h => h '/' rfl (.inl rfl)) (fun h => h (.inl rfl))
  · have hvacuous : ∀ front ch, path = front ++ [ch, '/'] → ¬ Bare ch := by
      rintro front ch rfl
      exact absurd (by simp) hslash
    obtain ⟨more, hpath⟩ := suffix_dropLeading path
    have hsame : ∀ ch ∈ (dropLeading path).getLast?, ch ∈ path.getLast? := by
      intro ch hch
      rw [← hpath]
      exact List.mem_getLast?_append_of_mem_getLast? hch
    rw [dropTrailing_of_ne fun h => hslash (hsame '/' h)]
    refine iff_of_true (fun ch hch hbare => ?_) hvacuous
    rcases hbare with rfl | hspace
    · exact hslash (hsame '/' hch)
    · exact Bool.false_ne_true ((hlast ch (hsame ch hch)).symm.trans hspace)

theorem settled_iff_clean (htrim : Js.Trimmed path) :
    Settled (dropTrailing (dropLeading path)) ↔ Clean path := by
  have hhead := head_settled htrim.head
  rw [← head?_dropTrailing (dropLeading path)] at hhead
  have hlast := last_settled htrim.last
  exact ⟨fun h => ⟨hhead.mp h.head, hlast.mp h.last⟩, fun h => ⟨hhead.mpr h.head, hlast.mpr h.last⟩⟩

/-! ## What a remote path is made of -/

theorem not_mem_toSlashes (path : List Char) : '\\' ∉ toSlashes path := by
  intro hmem
  obtain ⟨ch, -, heq⟩ := List.mem_map.mp hmem
  split at heq
  · exact absurd heq (by decide)
  next hne => exact hne heq

theorem toSlashes_of_not_mem (h : '\\' ∉ path) : toSlashes path = path := by
  refine (List.map_congr_left fun ch hmem => ?_).trans (List.map_id path)
  have hne : ch ≠ '\\' := fun heq => h (heq ▸ hmem)
  rw [if_neg hne]
  rfl

theorem trimmed_toSlashes (htrim : Js.Trimmed path) : Js.Trimmed (toSlashes path) := by
  have hspace : ∀ ch, Js.isWhitespace ch = false →
      Js.isWhitespace (if ch = '\\' then '/' else ch) = false := by
    intro ch hch
    split
    · decide
    · exact hch
  constructor
  · intro ch hch
    rw [toSlashes, List.head?_map, Option.mem_def, Option.map_eq_some_iff] at hch
    obtain ⟨ch, hmem, rfl⟩ := hch
    exact hspace ch (htrim.head ch hmem)
  · intro ch hch
    rw [toSlashes, List.getLast?_map, Option.mem_def, Option.map_eq_some_iff] at hch
    obtain ⟨ch, hmem, rfl⟩ := hch
    exact hspace ch (htrim.last ch hmem)

theorem infix_remotePath (path : List Char) : remotePath path <:+: toSlashes path :=
  (prefix_dropTrailing _).isInfix.trans (suffix_dropLeading _).isInfix

theorem not_mem_remotePath (path : List Char) : '\\' ∉ remotePath path := fun hmem =>
  not_mem_toSlashes path ((infix_remotePath path).subset hmem)

theorem length_remotePath_le (path : List Char) : (remotePath path).length ≤ path.length :=
  (infix_remotePath path).length_le.trans (List.length_map _).le

theorem remotePath_of_settled (hsettled : Settled path) (hfree : '\\' ∉ path) :
    remotePath path = path := by
  have hleading : dropLeading path = path :=
    dropLeading_of_ne fun h => hsettled.head '/' h (.inl rfl)
  unfold remotePath
  rw [toSlashes_of_not_mem hfree, hleading,
    dropTrailing_of_ne fun h => hsettled.last '/' h (.inl rfl)]

theorem Settled.trimmed (hsettled : Settled path) : Js.Trimmed path where
  head ch hch := Bool.eq_false_iff.mpr fun hspace => hsettled.head ch hch (.inr hspace)
  last ch hch := Bool.eq_false_iff.mpr fun hspace => hsettled.last ch hch (.inr hspace)

/-! ## The two checks -/

/-- What passes the second check has no `..` component. -/
theorem noParent_of_not_traverses (h : ¬ Traverses path) : NoParent posixSeparator path := by
  intro hmem
  obtain ⟨front, back, hpath, hfront, hback⟩ := part_cases hmem
  refine h ?_
  rcases hfront with rfl | ⟨more, first, rfl, hfirst⟩
  · exact .inl ⟨back, hpath.symm⟩
  obtain rfl := beq_iff_eq.mp hfirst
  rcases hback with rfl | ⟨second, behind, rfl, hsecond⟩
  · exact .inr (.inr ⟨more, by rw [hpath, List.append_nil, List.append_assoc]; rfl⟩)
  · obtain rfl := beq_iff_eq.mp hsecond
    exact .inr (.inl ⟨more, behind, by
      rw [hpath]; simp only [List.append_assoc, List.cons_append, List.nil_append]⟩)

theorem noParent_dropLeading (h : NoParent posixSeparator (dropLeading path)) :
    NoParent posixSeparator path := by
  by_cases hslash : path.head? = some '/'
  · obtain ⟨back, rfl⟩ : ∃ back, path = '/' :: back := List.head?_eq_some_iff.mp hslash
    have hcut : NoParent posixSeparator ([] ++ '/' :: back) ↔ _ := noParent_append_cons rfl
    exact hcut.mpr ⟨by unfold NoParent; decide, h⟩
  · rwa [dropLeading_of_ne hslash] at h

theorem noParent_dropTrailing (h : NoParent posixSeparator (dropTrailing path)) :
    NoParent posixSeparator path := by
  rcases dropTrailing_cases path with ⟨heq, -⟩ | ⟨front, -, rfl, heq⟩
  · rwa [heq] at h
  · rw [heq] at h
    exact (noParent_append_cons rfl).mpr ⟨h, by unfold NoParent; decide⟩

/-- Without parent steps the first check looks at the double dots of the text itself. -/
theorem hasDots_normalize (windows : Bool) (h : NoParent win32Separator path) :
    HasDots (if windows then win32Normalize path else posixNormalize path) ↔ HasDots path := by
  cases windows with
  | false => exact hasDots_posixNormalize h.posix
  | true => exact hasDots_win32Normalize h

/-- What passes both checks has no double dots at all. -/
theorem not_hasDots_remotePath {windows : Bool}
    (hdots : ¬ HasDots (if windows then win32Normalize path else posixNormalize path))
    (htraverses : ¬ Traverses (remotePath path)) : ¬ HasDots (remotePath path) := by
  have hslashed :=
    noParent_dropLeading (noParent_dropTrailing (noParent_of_not_traverses htraverses))
  rw [hasDots_normalize windows ((noParent_toSlashes path).mp hslashed),
    ← hasDots_toSlashes] at hdots
  exact fun h => hdots (h.trans (infix_remotePath path))

/-! ## Saving a path again -/

variable {platform storagePath storageType result : String} {targetOS : Option String}

theorem sanitizeStoragePath_eq_ok (hremote : storageType ≠ "local") :
    sanitizeStoragePath platform storagePath storageType targetOS = .ok result ↔
      ¬ HasDots (if isTargetWindows platform targetOS then
        win32Normalize (Js.trim storagePath).toList
        else posixNormalize (Js.trim storagePath).toList) ∧
      ¬ Traverses (remotePath (Js.trim storagePath).toList) ∧
      result = String.ofList (remotePath (Js.trim storagePath).toList) := by
  unfold sanitizeStoragePath
  dsimp only
  generalize (Js.trim storagePath).toList = trimmedPath
  generalize (if isTargetWindows platform targetOS then win32Normalize trimmedPath
    else posixNormalize trimmedPath) = normalizedPath
  rw [if_neg hremote]
  by_cases hdots : HasDots normalizedPath
  · rw [if_pos hdots]
    exact iff_of_false (by simp) fun h => h.1 hdots
  rw [if_neg hdots]
  by_cases htraverses : Traverses (remotePath trimmedPath)
  · rw [if_pos htraverses]
    exact iff_of_false (by simp) fun h => h.2.1 htraverses
  · rw [if_neg htraverses]
    exact ⟨fun h => ⟨hdots, htraverses, (Except.ok.inj h).symm⟩,
      fun h => congrArg Except.ok h.2.2.symm⟩

/-- A remote path has no backslash and no `..` component. It is canonical, and stays where it is
when it is saved again, exactly if behind the slash at an end there was neither a slash nor white
space. -/
theorem sanitizeStoragePath_exact (hremote : storageType ≠ "local")
    (hresult : sanitizeStoragePath platform storagePath storageType targetOS = .ok result) :
    '\\' ∉ result.toList ∧ NoParent posixSeparator result.toList ∧
      (result.toList.head? ≠ some '/' ∧ (result.toList.getLast? = some '/' → result = "") ∧
          sanitizeStoragePath platform result storageType targetOS = .ok result ↔
        Clean (toSlashes (Js.trim storagePath).toList)) := by
  obtain ⟨hdots, htraverses, rfl⟩ := (sanitizeStoragePath_eq_ok hremote).mp hresult
  rw [← settled_iff_clean (trimmed_toSlashes (Js.trimmed_trim storagePath))]
  have hnodots := not_hasDots_remotePath hdots htraverses
  have hfree := not_mem_remotePath (Js.trim storagePath).toList
  have hparent := noParent_of_not_traverses htraverses
  change _ ∧ _ ∧ (_ ↔ Settled (remotePath (Js.trim storagePath).toList))
  generalize remotePath (Js.trim storagePath).toList = path at *
  rw [String.toList_ofList]
  refine ⟨hfree, hparent, ?_, fun hsettled => ?_⟩
  · rintro ⟨hfirst, hlast, hagain⟩
    obtain ⟨-, -, hsame⟩ := (sanitizeStoragePath_eq_ok hremote).mp hagain
    -- The second pass removes nothing, so the first part of it does not either.
    have hpath : remotePath (Js.trim (String.ofList path)).toList = path :=
      String.ofList_injective hsame.symm
    have hshort := length_remotePath_le (Js.trim (String.ofList path)).toList
    have hsublist := Js.trim_sublist (String.ofList path)
    rw [hpath] at hshort
    rw [String.toList_ofList] at hsublist
    have htrim := Js.trimmed_trim (String.ofList path)
    rw [hsublist.eq_of_length_le hshort] at htrim
    constructor
    · rintro ch hch (rfl | hspace)
      · exact hfirst hch
      · exact Bool.false_ne_true ((htrim.head ch hch).symm.trans hspace)
    · rintro ch hch (rfl | hspace)
      · have hnil : path = [] := String.ofList_injective (hlast hch)
        exact absurd (hnil ▸ hch) (by decide)
      · exact Bool.false_ne_true ((htrim.last ch hch).symm.trans hspace)
  · have htrim : (Js.trim (String.ofList path)).toList = path := by
      rw [Js.trim_of_trimmed (by rw [String.toList_ofList]; exact hsettled.trimmed),
        String.toList_ofList]
    refine ⟨fun h => hsettled.head '/' h (.inl rfl),
      fun h => absurd (.inl rfl) (hsettled.last '/' h), ?_⟩
    rw [sanitizeStoragePath_eq_ok hremote, htrim, remotePath_of_settled hsettled hfree]
    have hwindows : NoParent win32Separator path :=
      (noParent_toSlashes path).mp (by rwa [toSlashes_of_not_mem hfree])
    exact ⟨fun h => hnodots ((hasDots_normalize _ hwindows).mp h), htraverses, rfl⟩

end

/-- A path between two slashes, one of them a backslash. -/
theorem sanitizeStoragePath_exact_sample :
    sanitizeStoragePath "linux" " /bucket\\plans/ " "s3" none = .ok "bucket/plans" ∧
      '\\' ∉ "bucket/plans".toList ∧ NoParent posixSeparator "bucket/plans".toList ∧
      ("bucket/plans".toList.head? ≠ some '/' ∧
          ("bucket/plans".toList.getLast? = some '/' → "bucket/plans" = "") ∧
          sanitizeStoragePath "linux" "bucket/plans" "s3" none = .ok "bucket/plans" ↔
        Clean (toSlashes (Js.trim " /bucket\\plans/ ").toList)) :=
  ⟨by decide +kernel, sanitizeStoragePath_exact (by decide) (by decide +kernel)⟩

/-- Of two slashes in front one is left, which goes when the path is saved again. -/
theorem double_slash_moves :
    ¬ ∀ platform storagePath storageType targetOS result, storageType ≠ "local" →
      sanitizeStoragePath platform storagePath storageType targetOS = .ok result →
      result.toList.head? ≠ some '/' ∧ '\\' ∉ result.toList ∧
        NoParent posixSeparator result.toList ∧
        (result.toList.getLast? = some '/' → result = "") ∧
        sanitizeStoragePath platform result storageType targetOS = .ok result := by
  intro h
  have hsaved := h "linux" "//a" "s3" none "/a" (by decide) (by decide +kernel)
  exact hsaved.1 (by decide)

end Pluton.StoragePaths
