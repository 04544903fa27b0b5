-- SUMMARY: Wildcard patterns over any alphabet: what a list of places and runs matches.
import Mathlib.Data.List.Basic

/-!
# Wildcards

A pattern is a list of tokens. `one test` stands for one element that passes the test,
`many` for a run of any length, the empty one too. A pattern matches a word as a whole;
`MatchesFront` asks for a nonempty front of the word only.
-/
namespace Glob

inductive Token (α : Type) where
  | one (test : α → Bool)
  | many

/-- The pattern matches the whole word. -/
inductive Matches {α : Type} : List (Token α) → List α → Prop where
  | nil : Matches [] []
  | one {test : α → Bool} {x : α} {tokens : List (Token α)} {word : List α} (htest : test x = true)
      (hrest : Matches tokens word) : Matches (.one test :: tokens) (x :: word)
  | many (run : List α) {tokens : List (Token α)} {word : List α} (hrest : Matches tokens word) :
      Matches (.many :: tokens) (run ++ word)

/-- The pattern matches a front of the word that is not empty. -/
def MatchesFront {α : Type} (tokens : List (Token α)) (word : List α) : Prop :=
  ∃ front, front ≠ [] ∧ front <+: word ∧ Matches tokens front

section
variable {α : Type} {tokens : List (Token α)} {word : List α}

/-! ## One token -/

@[simp] theorem matches_nil_iff : Matches [] word ↔ word = [] := by
  constructor
  · intro h
    cases h
    rfl
  · rintro rfl
    exact .nil

@[simp] theorem matches_one_cons {test : α → Bool} {x : α} :
    Matches (.one test :: tokens) (x :: word) ↔ test x = true ∧ Matches tokens word := by
  constructor
  · intro h
    cases h with
    | one htest hrest => exact ⟨htest, hrest⟩
  · rintro ⟨htest, hrest⟩
    exact .one htest hrest

@[simp] theorem not_matches_one_nil {test : α → Bool} : ¬ Matches (.one test :: tokens) [] := nofun

theorem matches_many_iff : Matches (.many :: tokens) word ↔ ∃ n, Matches tokens (word.drop n) := by
  constructor
  · intro h
    cases h with
    | many run hrest => exact ⟨run.length, by rwa [List.drop_left]⟩
  · rintro ⟨n, hrest⟩
    rw [← List.take_append_drop n word]
    exact .many _ hrest

/-- A run is empty, or it takes the first element and goes on. -/
theorem matches_many_cons {x : α} :
    Matches (.many :: tokens) (x :: word) ↔
    Matches tokens (x :: word) ∨ Matches (.many :: tokens) word := by
  rw [matches_many_iff, matches_many_iff]
  constructor
  · rintro ⟨n, hrest⟩
    cases n with
    | zero => exact .inl hrest
    | succ n => exact .inr ⟨n, hrest⟩
  · rintro (hrest | ⟨n, hrest⟩)
    · exact ⟨0, hrest⟩
    · exact ⟨n + 1, hrest⟩

theorem matches_empty : Matches tokens [] ↔ ∀ token ∈ tokens, token = .many := by
  induction tokens with
  | nil => simp
  | cons token tokens ih =>
      cases token with
      | one test => simp
      | many => simp [matches_many_iff, ih]

/-! ## Fronts -/

/-- What is matched at the front stays matched when the word goes on. -/
theorem MatchesFront.append (h : MatchesFront tokens word) (more : List α) :
    MatchesFront tokens (word ++ more) := by
  obtain ⟨front, hne, hfront, hmatches⟩ := h
  exact ⟨front, hne, hfront.trans (List.prefix_append word more), hmatches⟩

theorem matches_concat_many :
    Matches (tokens ++ [.many]) word ↔ ∃ front, front <+: word ∧ Matches tokens front := by
  induction tokens generalizing word with
  | nil =>
      rw [List.nil_append, matches_many_iff]
      simp only [matches_nil_iff]
      exact ⟨fun _ => ⟨[], List.nil_prefix, rfl⟩, fun _ => ⟨word.length, List.drop_length⟩⟩
  | cons token tokens ih =>
      constructor
      · intro h
        cases h with
        | @one test x _ rest htest hrest =>
            obtain ⟨front, hfront, hmatches⟩ := ih.mp hrest
            exact ⟨x :: front, List.cons_prefix_cons.mpr ⟨rfl, hfront⟩, .one htest hmatches⟩
        | many run hrest =>
            obtain ⟨front, hfront, hmatches⟩ := ih.mp hrest
            exact ⟨run ++ front, (List.prefix_append_right_inj run).mpr hfront, .many run hmatches⟩
      · rintro ⟨front, ⟨more, rfl⟩, hmatches⟩
        cases hmatches with
        | one htest hrest => exact .one htest (ih.mpr ⟨_, List.prefix_append _ more, hrest⟩)
        | many run hrest =>
            rw [List.append_assoc]
            exact .many run (ih.mpr ⟨_, List.prefix_append _ more, hrest⟩)

/-- A run at the end changes no front that is matched, unless it is all there is. -/
theorem matchesFront_concat_many (hne : tokens ≠ []) :
    MatchesFront (tokens ++ [.many]) word ↔ MatchesFront tokens word := by
  constructor
  · rintro ⟨front, hfront, hinit, hmatches⟩
    obtain ⟨inner, hinner, hmatches⟩ := matches_concat_many.mp hmatches
    cases inner with
    | cons x inner => exact ⟨x :: inner, List.cons_ne_nil x inner, hinner.trans hinit, hmatches⟩
    | nil =>
        -- only runs are left: the first of them takes the front as well
        have hmany := matches_empty.mp hmatches
        cases tokens with
        | nil => exact absurd rfl hne
        | cons token tokens =>
            refine ⟨front, hfront, hinit, ?_⟩
            rw [hmany token List.mem_cons_self, matches_many_iff]
            exact ⟨front.length, by
              rw [List.drop_length]
              exact matches_empty.mpr fun token htoken =>
                hmany token (List.mem_cons_of_mem _ htoken)⟩
  · rintro ⟨front, hfront, hinit, hmatches⟩
    exact ⟨front, hfront, hinit, matches_concat_many.mpr ⟨front, List.prefix_refl front, hmatches⟩⟩

end

end Glob
