-- SUMMARY: The matcher of a path against patterns, and what a pattern means below a source.
import Pluton.Exclusions.Segments

/-!
# Paths

`pathMatches` and `compileBackupExclusions` of `backupExclusions.ts`. The matcher keeps the
set of the positions that a pattern can be at after some components of the path. How a
component is matched against a part of the pattern is the parameter `segment`; the code's
own is `segmentMatches`.
-/
namespace Pluton.Exclusions

open Glob Envelope Except

/-! ## The matcher -/

/-- `positions.add(index)` -/
def addPosition (positions : List Nat) (index : Nat) : List Nat :=
  if index ∈ positions then positions else positions ++ [index]

/-- The loop of `expand` from the `i`th position on; it visits what it adds. -/
def expandFrom (tokens : List String) : Nat → Nat → List Nat → List Nat
  | 0, _, positions => positions
  | fuel + 1, i, positions =>
    match positions[i]? with
    | none => positions
    | some index =>
      expandFrom tokens fuel (i + 1) (if tokens[index]? =
        some "**" then addPosition positions (index + 1) else positions)

/-- There are no more positions than places between tokens. -/
def expand (tokens : List String) (positions : List Nat) : List Nat :=
  expandFrom tokens (tokens.length + 1) 0 positions

section
variable (segment : String → String → Bool)

/-- One turn of the inner loop. -/
def advance (tokens : List String) (part : String) (next : List Nat) (index : Nat) : List Nat :=
  match tokens[index]? with
  | none => next
  | some token =>
    if token = "**" then addPosition next index
    else if token ≠ "" ∧ segment token part = true then addPosition next (index + 1)
    else next

def nextStates (tokens : List String) (states : List Nat) (part : String) : List Nat :=
  states.foldl (advance segment tokens part) []

/-- The loop over the components of the path. -/
def walk (tokens : List String) : List Nat → List String → Bool
  | _, [] => false
  | states, part :: parts =>
    let next := expand tokens (nextStates segment tokens states part)
    -- a matched ancestor prunes the subtree
    if tokens.length ∈ next then true
    else if next.isEmpty then false
    else walk tokens next parts

def pathMatches (pattern relative : String) : Bool :=
  let tokens := Js.split '/' pattern
  walk segment tokens (expand tokens [0]) (Js.split '/' relative)

/-- The pattern with its anchor: a bare name is looked for at any depth. -/
def scope (pattern : String) : String :=
  if Js.includes '/' pattern then pattern else "**/" ++ pattern

def compileBackupExclusions (letter : Char → Bool) (patterns : List String) :
    Except String (String → Bool) := do
  let parsed ← parseBackupExclusions letter (some (Json.texts patterns))
  return fun relative =>
    if relative == "" || Js.startsWith "/" relative ||
    (Js.split '/' relative).any (· == "..") then false
    else (parsed.map scope).any fun pattern => pathMatches segment pattern relative

end

def backupExclusionMatches (letter : Char → Bool) (patterns : List String) (relative : String) :
    Except String Bool :=
  (compileBackupExclusions segmentMatches letter patterns).map (· relative)

/-! ## What a pattern means -/

section
variable (segment : String → String → Bool)

/-- What a part of a pattern stands for. -/
def partToken (token : String) : Token String :=
  if token = "**" then .many else .one (segment token)

def tokensOf (pattern : String) : List (Token String) :=
  (Js.split '/' pattern).map (partToken segment)

/-- The pattern, under its anchor, matches a front of the path's components. -/
def Excludes (pattern relative : String) : Prop :=
  MatchesFront (tokensOf segment (scope pattern)) (Js.split '/' relative)

end

/-- A path below the source, as the scan of the source forms it. -/
structure RelativePath (relative : String) : Prop where
  ne_empty : relative ≠ ""
  not_absolute : Js.startsWith "/" relative = false
  inside : ".." ∉ Js.split '/' relative

/-! ## Sets of positions -/

section
variable {segment : String → String → Bool} {tokens : List String} {positions : List Nat}
  {i j : Nat} {part : String} {parts : List String}

@[simp] theorem mem_addPosition : j ∈ addPosition positions i ↔ j ∈ positions ∨ j = i := by
  unfold addPosition
  split
  next h => exact ⟨.inl, fun hj => hj.elim id fun heq => heq ▸ h⟩
  next => simp

theorem getElem?_addPosition {k : Nat} (hk : k < positions.length) :
    (addPosition positions i)[k]? = positions[k]? := by
  unfold addPosition
  split
  next => rfl
  next => exact List.getElem?_append_left hk

/-- Positions of the tokens, each once. -/
structure Positions (tokens : List String) (positions : List Nat) : Prop where
  nodup : positions.Nodup
  le : ∀ i ∈ positions, i ≤ tokens.length

theorem Positions.add (h : Positions tokens positions) (hi : i ≤ tokens.length) :
    Positions tokens (addPosition positions i) where
  nodup := by
    unfold addPosition
    split
    next => exact h.nodup
    next hnot =>
      refine List.nodup_append.mpr ⟨h.nodup, List.nodup_singleton i, fun x hx y hy heq => hnot ?_⟩
      rwa [← List.mem_singleton.mp hy, ← heq]
  le := fun j hj => (mem_addPosition.mp hj).elim (h.le j) fun heq => heq ▸ hi

theorem Positions.length_le (h : Positions tokens positions) :
    positions.length ≤ tokens.length + 1 := by
  have hsub : positions ⊆ List.range (tokens.length + 1) := fun i hi =>
    List.mem_range.mpr (Nat.lt_succ_of_le (h.le i hi))
  have hle := (List.subperm_of_subset h.nodup hsub).length_le
  rwa [List.length_range] at hle

/-- What the pattern can still match from one of the positions. -/
def Accepts (segment : String → String → Bool) (tokens : List String) (positions : List Nat)
    (parts : List String) : Prop :=
  ∃ i ∈ positions, Matches ((tokens.drop i).map (partToken segment)) parts

/-- Behind every position at a `**` there is the next one. -/
def Closed (tokens : List String) (positions : List Nat) : Prop :=
  ∀ i ∈ positions, tokens[i]? = some "**" → i + 1 ∈ positions

theorem drop_many (h : tokens[i]? = some "**") :
    (tokens.drop i).map (partToken segment) =
      .many :: (tokens.drop (i + 1)).map (partToken segment) := by
  rw [drop_of_getElem? h, List.map_cons, partToken, if_pos rfl]

theorem drop_one {token : String} (h : tokens[i]? = some token) (hne : token ≠ "**") :
    (tokens.drop i).map (partToken segment) =
      .one (segment token) :: (tokens.drop (i + 1)).map (partToken segment) := by
  rw [drop_of_getElem? h, List.map_cons, partToken, if_neg hne]

/-- The position behind a `**` accepts nothing new. -/
theorem accepts_add_many (hi : i ∈ positions) (hmany : tokens[i]? = some "**") :
    Accepts segment tokens (addPosition positions (i + 1)) parts ↔
    Accepts segment tokens positions parts := by
  constructor
  · rintro ⟨j, hj, hmatches⟩
    rcases mem_addPosition.mp hj with hj | rfl
    · exact ⟨j, hj, hmatches⟩
    · refine ⟨i, hi, ?_⟩
      rw [drop_many hmany]
      exact .many [] hmatches
  · rintro ⟨j, hj, hmatches⟩
    exact ⟨j, mem_addPosition.mpr (.inl hj), hmatches⟩

/-- What the loop of `expand` makes of positions. -/
structure Expanded (segment : String → String → Bool) (tokens : List String)
    (positions expanded : List Nat) : Prop where
  bounded : Positions tokens expanded
  closed : Closed tokens expanded
  accepts : ∀ parts, Accepts segment tokens expanded parts ↔ Accepts segment tokens positions parts

theorem expandFrom_expanded {fuel : Nat} (h : Positions tokens positions)
    (hfuel : tokens.length + 1 ≤ fuel + i)
    (hvisited : ∀ k < i, ∀ index, positions[k]? = some index → tokens[index]? = some "**" →
      index + 1 ∈ positions) :
    Expanded segment tokens positions (expandFrom tokens fuel i positions) := by
  -- all positions before the `i`th have been visited
  induction fuel generalizing i positions with
  | zero =>
      refine ⟨h, fun index hindex hmany => ?_, fun _ => Iff.rfl⟩
      obtain ⟨k, hk⟩ := List.mem_iff_getElem?.mp hindex
      have hlt : k < positions.length := (List.getElem?_eq_some_iff.mp hk).1
      have hlength := h.length_le
      exact hvisited k (by omega) index hk hmany
  | succ fuel ih =>
      unfold expandFrom
      cases hi : positions[i]? with
      | none =>
          refine ⟨h, fun index hindex hmany => ?_, fun _ => Iff.rfl⟩
          obtain ⟨k, hk⟩ := List.mem_iff_getElem?.mp hindex
          have hlt : k < positions.length := (List.getElem?_eq_some_iff.mp hk).1
          have hle := List.getElem?_eq_none_iff.mp hi
          exact hvisited k (by omega) index hk hmany
      | some index =>
          dsimp only
          split
          next hmany =>
            have hmem : index ∈ positions := List.mem_of_getElem? hi
            have hbound : index + 1 ≤ tokens.length := (List.getElem?_eq_some_iff.mp hmany).1
            have hlt := (List.getElem?_eq_some_iff.mp hi).1
            have hnext : ∀ k < i + 1, ∀ other,
                (addPosition positions (index + 1))[k]? = some other →
                tokens[other]? = some "**" → other + 1 ∈ addPosition positions (index + 1) := by
              intro k hk other hother hothermany
              rw [getElem?_addPosition (by omega)] at hother
              rw [mem_addPosition]
              rcases Nat.lt_succ_iff_lt_or_eq.mp hk with hbefore | rfl
              · exact .inl (hvisited k hbefore other hother hothermany)
              · rw [hi] at hother
                exact .inr (congrArg (· + 1) (Option.some.inj hother).symm)
            have hexpanded := ih (h.add hbound) (by omega) hnext
            exact ⟨hexpanded.bounded, hexpanded.closed,
              fun parts => (hexpanded.accepts parts).trans (accepts_add_many hmem hmany)⟩
          next hplain =>
            refine ih h (by omega) fun k hk other hother hmany => ?_
            rcases Nat.lt_succ_iff_lt_or_eq.mp hk with hlt | rfl
            · exact hvisited k hlt other hother hmany
            · rw [hi] at hother
              exact absurd (Option.some.inj hother ▸ hmany) hplain

theorem expand_expanded (h : Positions tokens positions) :
    Expanded segment tokens positions (expand tokens positions) :=
  expandFrom_expanded h (Nat.le_refl _) nofun

/-! ## One component -/

/-- The positions after a component, from the positions before it. -/
def Leads (segment : String → String → Bool) (tokens : List String) (part : String) (i j : Nat) :
    Prop :=
  (tokens[i]? = some "**" ∧ j = i) ∨
    ∃ token, tokens[i]? = some token ∧ token ≠ "**" ∧ token ≠ "" ∧
      segment token part = true ∧ j = i + 1

theorem mem_advance {next : List Nat} :
    j ∈ advance segment tokens part next i ↔ j ∈ next ∨ Leads segment tokens part i j := by
  unfold advance Leads
  cases htoken : tokens[i]? with
  | none => simp
  | some token =>
      dsimp only
      split
      next hmany => simp [hmany]
      next hplain =>
        split
        next hmatch => simp [hplain, hmatch]
        next hmatch =>
          simp only [Option.some.injEq, hplain, false_and, exists_eq_left', ne_eq,
            not_false_eq_true, true_and, false_or]
          exact ⟨.inl, fun h => h.elim id fun hleads => absurd ⟨hleads.1, hleads.2.1⟩ hmatch⟩

theorem Positions.advance {next : List Nat} (h : Positions tokens next) (hi : i ≤ tokens.length) :
    Positions tokens (advance segment tokens part next i) := by
  unfold Exclusions.advance
  cases htoken : tokens[i]? with
  | none => exact h
  | some token =>
      dsimp only
      split
      next => exact h.add hi
      next =>
        split
        next => exact h.add (List.getElem?_eq_some_iff.mp htoken).1
        next => exact h

theorem nextStates_spec {states : List Nat} (h : ∀ i ∈ states, i ≤ tokens.length) :
    Positions tokens (nextStates segment tokens states part) ∧
      ∀ j, j ∈ nextStates segment tokens states part ↔
        ∃ i ∈ states, Leads segment tokens part i j := by
  have hfold : ∀ (states next : List Nat), (∀ i ∈ states, i ≤ tokens.length) →
      Positions tokens next →
      Positions tokens (states.foldl (advance segment tokens part) next) ∧
        ∀ j, j ∈ states.foldl (advance segment tokens part) next ↔
          j ∈ next ∨ ∃ i ∈ states, Leads segment tokens part i j := by
    intro states
    induction states with
    | nil => exact fun next _ hnext => ⟨hnext, by simp⟩
    | cons i states ih =>
        intro next hle hnext
        obtain ⟨hi, hle⟩ := List.forall_mem_cons.mp hle
        obtain ⟨hpositions, hmem⟩ := ih (advance segment tokens part next i) hle (hnext.advance hi)
        refine ⟨hpositions, fun j => ?_⟩
        rw [List.foldl_cons, hmem, mem_advance, or_assoc]
        simp
  obtain ⟨hpositions, hmem⟩ := hfold states [] h ⟨List.nodup_nil, nofun⟩
  exact ⟨hpositions, fun j => (hmem j).trans (by simp)⟩

/-- A closed set that matches nothing more has come to the end of the pattern. -/
theorem accepts_nil (hclosed : Closed tokens positions)
    (hbounded : ∀ i ∈ positions, i ≤ tokens.length) :
    Accepts segment tokens positions [] ↔ tokens.length ∈ positions := by
  constructor
  · rintro ⟨i, hi, hmatches⟩
    -- from `i` on there are only `**`
    have hle := hbounded i hi
    induction hn : tokens.length - i generalizing i with
    | zero =>
        obtain rfl : i = tokens.length := by omega
        exact hi
    | succ n ih =>
        obtain ⟨token, htoken⟩ : ∃ token, tokens[i]? = some token :=
          ⟨tokens[i], List.getElem?_eq_getElem (by omega)⟩
        by_cases hmany : token = "**"
        · rw [hmany] at htoken
          rw [drop_many htoken, matches_many_iff] at hmatches
          obtain ⟨_, hrest⟩ := hmatches
          rw [List.drop_nil] at hrest
          exact ih (i + 1) (hclosed i hi htoken) hrest (by omega) (by omega)
        · rw [drop_one htoken hmany] at hmatches
          exact absurd hmatches not_matches_one_nil
  · intro hlast
    exact ⟨tokens.length, hlast, by rw [List.drop_length]; exact .nil⟩

/-- From a closed set, what is matched of a path is matched through the first component. -/
theorem leads_of_matches (hclosed : Closed tokens positions) (hnonempty : "" ∉ tokens)
    (hi : i ∈ positions) (h : Matches ((tokens.drop i).map (partToken segment)) (part :: parts)) :
    ∃ i' ∈ positions, ∃ j, Leads segment tokens part i' j ∧
      Matches ((tokens.drop j).map (partToken segment)) parts := by
  induction hn : tokens.length - i generalizing i with
  | zero =>
      rw [List.drop_eq_nil_of_le (by omega), List.map_nil, matches_nil_iff] at h
      exact absurd h nofun
  | succ n ih =>
      obtain ⟨token, htoken⟩ : ∃ token, tokens[i]? = some token :=
        ⟨tokens[i], List.getElem?_eq_getElem (by omega)⟩
      by_cases hmany : token = "**"
      · rw [hmany] at htoken
        rw [drop_many htoken, matches_many_cons] at h
        rcases h with hskip | htake
        · exact ih (hclosed i hi htoken) hskip (by omega)
        · exact ⟨i, hi, i, .inl ⟨htoken, rfl⟩, by rwa [drop_many htoken]⟩
      · rw [drop_one htoken hmany, matches_one_cons] at h
        have hne : token ≠ "" := fun heq => hnonempty (heq ▸ List.mem_of_getElem? htoken)
        exact ⟨i, hi, i + 1, .inr ⟨token, htoken, hmany, hne, h.1, rfl⟩, h.2⟩

theorem matches_of_leads (hleads : Leads segment tokens part i j)
    (h : Matches ((tokens.drop j).map (partToken segment)) parts) :
    Matches ((tokens.drop i).map (partToken segment)) (part :: parts) := by
  rcases hleads with ⟨hmany, rfl⟩ | ⟨token, htoken, hplain, -, hmatch, rfl⟩
  · rw [drop_many hmany] at h ⊢
    exact matches_many_cons.mpr (.inr h)
  · rw [drop_one htoken hplain]
    exact .one hmatch h

theorem accepts_cons (hclosed : Closed tokens positions)
    (hbounded : ∀ i ∈ positions, i ≤ tokens.length) (hnonempty : "" ∉ tokens) :
    Accepts segment tokens positions (part :: parts) ↔
      Accepts segment tokens (nextStates segment tokens positions part) parts := by
  have hmem : ∀ j, j ∈ nextStates segment tokens positions part ↔
      ∃ i ∈ positions, Leads segment tokens part i j :=
    (nextStates_spec hbounded).2
  constructor
  · rintro ⟨i, hi, hmatches⟩
    obtain ⟨i', hi', j, hleads, hrest⟩ := leads_of_matches hclosed hnonempty hi hmatches
    exact ⟨j, (hmem j).mpr ⟨i', hi', hleads⟩, hrest⟩
  · rintro ⟨j, hj, hrest⟩
    obtain ⟨i, hi, hleads⟩ := (hmem j).mp hj
    exact ⟨i, hi, matches_of_leads hleads hrest⟩

/-! ## The whole path -/

/-- The walk finds a front of the path that one of the positions matches. -/
theorem walk_iff {states : List Nat} (hnonempty : "" ∉ tokens) (hbounded : Positions tokens states)
    (hclosed : Closed tokens states) :
    walk segment tokens states parts = true ↔
      ∃ front, front ≠ [] ∧ front <+: parts ∧ Accepts segment tokens states front := by
  induction parts generalizing states with
  | nil =>
      refine ⟨nofun, ?_⟩
      rintro ⟨front, hne, hinit, -⟩
      exact absurd (List.prefix_nil.mp hinit) hne
  | cons part parts ih =>
      have hnext : Expanded segment tokens (nextStates segment tokens states part)
          (expand tokens (nextStates segment tokens states part)) :=
        expand_expanded (nextStates_spec hbounded.le).1
      have hstep : ∀ rest, Accepts segment tokens states (part :: rest) ↔
          Accepts segment tokens (expand tokens (nextStates segment tokens states part)) rest :=
            fun rest =>
              (accepts_cons hclosed hbounded.le hnonempty).trans (hnext.accepts rest).symm
      -- a front of the path is the component and a front of the others, which may be empty
      have hfront : (∃ front, front ≠ [] ∧ front <+: part :: parts ∧
          Accepts segment tokens states front) ↔
          ∃ rest, rest <+: parts ∧
            Accepts segment tokens
              (expand tokens (nextStates segment tokens states part)) rest := by
        constructor
        · rintro ⟨front, hne, hinit, haccepts⟩
          cases front with
          | nil => exact absurd rfl hne
          | cons x rest =>
              obtain ⟨rfl, hrest⟩ := List.cons_prefix_cons.mp hinit
              exact ⟨rest, hrest, (hstep rest).mp haccepts⟩
        · rintro ⟨rest, hrest, haccepts⟩
          exact ⟨part :: rest, List.cons_ne_nil _ _, List.cons_prefix_cons.mpr ⟨rfl, hrest⟩,
            (hstep rest).mpr haccepts⟩
      have hlast :
          Accepts segment tokens (expand tokens (nextStates segment tokens states part)) [] ↔ _ :=
        accepts_nil hnext.closed hnext.bounded.le
      rw [hfront]
      unfold walk
      dsimp only
      split
      next hdone => exact iff_of_true rfl ⟨[], List.nil_prefix, hlast.mpr hdone⟩
      next hmore =>
        split
        next hempty =>
          refine iff_of_false nofun ?_
          rintro ⟨rest, -, i, hi, -⟩
          rw [List.isEmpty_iff.mp hempty] at hi
          exact absurd hi List.not_mem_nil
        next =>
          rw [ih hnext.bounded hnext.closed]
          constructor
          · rintro ⟨rest, -, hrest, haccepts⟩
            exact ⟨rest, hrest, haccepts⟩
          · rintro ⟨rest, hrest, haccepts⟩
            refine ⟨rest, ?_, hrest, haccepts⟩
            rintro rfl
            exact hmore (hlast.mp haccepts)

theorem pathMatches_iff {pattern relative : String} (hnonempty : "" ∉ Js.split '/' pattern) :
    pathMatches segment pattern relative = true ↔
      MatchesFront (tokensOf segment pattern) (Js.split '/' relative) := by
  have hstart : Positions (Js.split '/' pattern) [0] :=
    ⟨List.nodup_singleton 0, fun i hi => List.mem_singleton.mp hi ▸ Nat.zero_le _⟩
  have hexpanded :
      Expanded segment (Js.split '/' pattern) [0] (expand (Js.split '/' pattern) [0]) :=
    expand_expanded hstart
  have hzero : ∀ front, Accepts segment (Js.split '/' pattern) [0] front ↔
      Matches (tokensOf segment pattern) front := by
    intro front
    constructor
    · rintro ⟨i, hi, hmatches⟩
      rwa [List.mem_singleton.mp hi] at hmatches
    · exact fun hmatches => ⟨0, List.mem_singleton_self 0, hmatches⟩
  rw [pathMatches, walk_iff hnonempty hexpanded.bounded hexpanded.closed]
  simp only [hexpanded.accepts, hzero, MatchesFront]

end

end Pluton.Exclusions
