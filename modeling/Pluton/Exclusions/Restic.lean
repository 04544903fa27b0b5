-- SUMMARY: Exclusions mean what their patterns say, prune subtrees, and mean the same to restic.
import Pluton.Envelope.Normalised
import Pluton.Exclusions.Paths

/-!
# Exclusions and restic

What `compileBackupExclusions` decides for a list that was accepted, and the patterns that
`sourceResticExclusions` derives from the same list. A path is judged by its components; a
path that is not below the source is never excluded.
-/
namespace Pluton.Exclusions

open Glob Envelope Except

section
variable {segment : String → String → Bool} {letter : Char → Bool} {pattern relative : String}
  {patterns parsed : List String}

/-! ## Accepted patterns -/

/-- The parts of an accepted pattern are not empty. -/
theorem nonempty_parts (h : unsafePattern letter pattern = false) : "" ∉ Js.split '/' pattern := by
  intro hmem
  have hunsafe : unsafePattern letter pattern = true := by
    unfold unsafePattern
    refine Bool.or_eq_true_iff.mpr (.inr (List.any_eq_true.mpr ⟨"", hmem, ?_⟩))
    simp [partPattern]
  rw [h] at hunsafe
  cases hunsafe

theorem split_scope : Js.split '/' (scope pattern) =
    if Js.includes '/' pattern then Js.split '/' pattern else "**" :: Js.split '/' pattern := by
  unfold scope
  split
  next => rfl
  next =>
    have hanchor : "**/" = "**" ++ String.singleton '/' := by decide
    have hstars : Js.split '/' "**" = ["**"] := by decide
    rw [hanchor, Js.split_append, hstars, List.singleton_append]

theorem nonempty_scope (h : "" ∉ Js.split '/' pattern) : "" ∉ Js.split '/' (scope pattern) := by
  rw [split_scope]
  split
  next => exact h
  next => exact fun hmem => (List.mem_cons.mp hmem).elim (by decide) h

theorem nonempty_of_parsed
    (h : parseBackupExclusions letter (some (Json.texts patterns)) = .ok parsed)
    (hpattern : pattern ∈ parsed) : "" ∉ Js.split '/' (scope pattern) := by
  obtain ⟨-, haccepted, -, rfl⟩ := parseTexts_eq_ok.mp h
  obtain ⟨item, hitem, rfl⟩ := List.mem_map.mp ((eraseDups_sublist _).subset hpattern)
  exact nonempty_scope (nonempty_parts (haccepted item hitem).pattern)

/-! ## The patterns for restic -/

/-- The parts that are dropped are all `**`. -/
theorem dropRecursive_eq (parts : List String) :
    ∃ n, parts = dropRecursive parts ++ List.replicate n "**" := by
  cases parts with
  | nil => exact ⟨0, rfl⟩
  | cons first rest =>
      refine ⟨(rest.reverse.takeWhile (· == "**")).length, ?_⟩
      have hstars : rest.reverse.takeWhile (· == "**") =
          List.replicate (rest.reverse.takeWhile (· == "**")).length "**" :=
        List.eq_replicate_of_mem fun part hpart =>
          beq_iff_eq.mp (List.mem_takeWhile_imp (p := (· == "**")) hpart)
      have hrest :=
        congrArg List.reverse (List.takeWhile_append_dropWhile (p := (· == "**")) (l :=
          rest.reverse))
      rw [List.reverse_append, List.reverse_reverse, hstars, List.reverse_replicate] at hrest
      rw [dropRecursive, List.cons_append, hrest]

theorem dropRecursive_ne_nil {parts : List String} (h : parts ≠ []) : dropRecursive parts ≠ [] := by
  cases parts with
  | nil => exact absurd rfl h
  | cons first rest => exact List.cons_ne_nil _ _

/-- What is dropped at the end does not change which paths are excluded. -/
theorem matchesFront_dropRecursive {parts path : List String} (h : parts ≠ []) :
    MatchesFront ((dropRecursive parts).map (partToken segment)) path ↔
    MatchesFront (parts.map (partToken segment)) path := by
  obtain ⟨n, hn⟩ := dropRecursive_eq parts
  have hne := dropRecursive_ne_nil h
  generalize dropRecursive parts = kept at hn hne
  subst hn
  clear h
  induction n with
  | zero => rw [List.replicate_zero, List.append_nil]
  | succ n ih =>
      have hne' : (kept ++ List.replicate n "**").map (partToken segment) ≠ [] := by simp [hne]
      have hlast : (kept ++ List.replicate (n + 1) "**").map (partToken segment) =
          (kept ++ List.replicate n "**").map (partToken segment) ++ [.many] := by
        rw [List.replicate_succ', ← List.append_assoc, List.map_append, List.map_singleton,
          partToken, if_pos rfl]
      rw [hlast]
      exact ih.trans (matchesFront_concat_many hne').symm

/-- The pattern's text below the source. -/
def body (pattern : String) : String :=
  "/".intercalate (dropRecursive (Js.split '/' (scope pattern)))

theorem anchored_eq (source : String) :
    anchored source pattern = stripSlash source ++ "/" ++ body pattern := rfl

theorem split_body :
    Js.split '/' (body pattern) = dropRecursive (Js.split '/' (scope pattern)) := by
  refine Js.split_join (dropRecursive_ne_nil (Js.split_ne_nil '/' _)) fun part hpart => ?_
  obtain ⟨n, hn⟩ := dropRecursive_eq (Js.split '/' (scope pattern))
  have hmem : part ∈ Js.split '/' (scope pattern) := by
    rw [hn]
    exact List.mem_append_left _ hpart
  exact Js.not_mem_of_mem_split hmem

theorem matchesFront_body : MatchesFront (tokensOf segment (body pattern)) (Js.split '/' relative) ↔
    Excludes segment pattern relative := by
  rw [tokensOf, split_body]
  exact matchesFront_dropRecursive (Js.split_ne_nil '/' _)

/-! ## Below an excluded path -/

theorem Excludes.below (h : Excludes segment pattern relative) (more : String) :
    Excludes segment pattern (relative ++ "/" ++ more) := by
  have hslash : "/" = String.singleton '/' := by decide
  rw [Excludes, hslash, Js.split_append]
  exact h.append _

theorem relativePath_iff : (relative == "" || Js.startsWith "/" relative ||
    (Js.split '/' relative).any (· == "..")) = false ↔ RelativePath relative := by
  constructor
  · intro h
    simp only [Bool.or_eq_false_iff, beq_eq_false_iff_ne, List.any_eq_false, beq_iff_eq] at h
    exact ⟨h.1.1, h.1.2, fun hmem => h.2 ".." hmem rfl⟩
  · rintro ⟨hne, habsolute, hinside⟩
    simp only [Bool.or_eq_false_iff, beq_eq_false_iff_ne, List.any_eq_false, beq_iff_eq]
    exact ⟨⟨hne, habsolute⟩, fun part hpart heq => hinside (heq ▸ hpart)⟩

/-! ## The exclusions of a list -/

/-- What the compiled exclusions of a list and its patterns for restic say. -/
structure Denotes (segment : String → String → Bool) (letter : Char → Bool)
    (patterns parsed : List String) (excluded : String → Bool) : Prop where
  /-- a path below the source is excluded when a pattern matches a front of its components -/
  excludes : ∀ relative, RelativePath relative →
    (excluded relative = true ↔ ∃ pattern ∈ parsed, Excludes segment pattern relative)
  /-- no other path is excluded -/
  others : ∀ relative, ¬ RelativePath relative → excluded relative = false
  /-- with a path, everything below it is excluded -/
  prunes : ∀ relative more, RelativePath (relative ++ "/" ++ more) → excluded relative = true →
    excluded (relative ++ "/" ++ more) = true
  /-- restic's pattern is the source and a pattern below it that excludes the same paths -/
  restic : ∀ source emitted, sourceResticExclusions letter source patterns = .ok emitted →
    List.Forall₂ (fun pattern text => ∃ below, text = stripSlash source ++ "/" ++ below ∧
      ∀ relative, MatchesFront (tokensOf segment below) (Js.split '/' relative) ↔
        Excludes segment pattern relative)
      parsed emitted

end

/-- The exclusions of an accepted list mean what its patterns say, for the
source's scan and for restic. -/
theorem backupExclusions_denote (segment : String → String → Bool) (letter : Char → Bool)
    (patterns parsed : List String)
    (h : parseBackupExclusions letter (some (Json.texts patterns)) = .ok parsed) :
    ∃ excluded, compileBackupExclusions segment letter patterns = .ok excluded ∧
      Denotes segment letter patterns parsed excluded := by
  refine ⟨_, by rw [compileBackupExclusions, h]; rfl, ?_⟩
  have hexcludes : ∀ relative,
      (parsed.map scope).any (fun pattern => pathMatches segment pattern relative) = true ↔
      ∃ pattern ∈ parsed, Excludes segment pattern relative := by
    intro relative
    rw [List.any_map, List.any_eq_true]
    refine exists_congr fun pattern => and_congr_right fun hpattern => ?_
    exact pathMatches_iff (nonempty_of_parsed h hpattern)
  have hother : ∀ relative, ¬ RelativePath relative →
      (relative == "" || Js.startsWith "/" relative || (Js.split '/' relative).any (· == "..")) =
        true := fun relative hnot =>
    eq_true_of_ne_false fun heq => hnot (relativePath_iff.mp heq)
  refine ⟨fun relative hrelative => ?_, fun relative hnot => ?_,
    fun relative more hrelative hexcluded => ?_,
    fun source emitted hemitted => ?_⟩
  · rw [relativePath_iff.mpr hrelative]
    exact hexcludes relative
  · rw [hother relative hnot]
    rfl
  · by_cases hfront : RelativePath relative
    · rw [relativePath_iff.mpr hfront] at hexcluded
      obtain ⟨pattern, hpattern, hfound⟩ := (hexcludes relative).mp hexcluded
      rw [relativePath_iff.mpr hrelative]
      exact (hexcludes _).mpr ⟨pattern, hpattern, hfound.below more⟩
    · rw [hother relative hfront] at hexcluded
      cases hexcluded
  · unfold sourceResticExclusions at hemitted
    simp only [bind_eq_ok, h, pure_eq_ok] at hemitted
    obtain ⟨_, -, other, ⟨⟩, rfl⟩ := hemitted
    rw [List.forall₂_map_right_iff]
    exact List.forall₂_same.mpr fun pattern _ =>
      ⟨body pattern, anchored_eq source, fun relative => matchesFront_body⟩

/-- A directory and what is in it. -/
theorem backupExclusions_denote_modules :
    ∃ excluded,
      compileBackupExclusions segmentMatches (·.isAlphanum) ["node_modules/**"] = .ok excluded ∧
      Denotes segmentMatches (·.isAlphanum) ["node_modules/**"] ["node_modules/**"] excluded :=
  backupExclusions_denote segmentMatches (·.isAlphanum) ["node_modules/**"] ["node_modules/**"] (by
    decide +kernel)

/-- The pattern `*` matches the component `..`, and the path `..` is not excluded. -/
theorem parent_not_excluded :
    parseBackupExclusions (·.isAlphanum) (some (Json.texts ["*"])) = .ok ["*"] ∧
      Excludes segmentMatches "*" ".." ∧
      backupExclusionMatches (·.isAlphanum) ["*"] ".." = .ok false := by
  refine ⟨by decide +kernel, ?_, by decide +kernel⟩
  have hparts : Js.split '/' (scope "*") = ["**", "*"] := by decide +kernel
  have hmany : partToken segmentMatches "**" = .many := if_pos rfl
  have hstar : partToken segmentMatches "*" = .one (segmentMatches "*") := if_neg (by decide)
  refine ⟨[".."], by decide, by decide +kernel, ?_⟩
  rw [tokensOf, hparts, List.map_cons, List.map_singleton, hmany, hstar]
  exact .many [] (.one (by decide +kernel) .nil)

end Pluton.Exclusions
