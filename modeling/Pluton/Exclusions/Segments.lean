-- SUMMARY: The matcher of a path segment with wildcards, and when it decides what is meant.
import Mathlib.Data.List.TakeWhile
import Pluton.Glob
import Pluton.Envelope.Exclusions

/-!
# Segments

`segmentMatches` of `backupExclusions.ts`, which server and agent share: one pass over the
name that goes back to the last `*`. A cursor holds the positions of the loop, `turn` is
one turn of it. The code asks whether the two characters are equal before it asks whether
the pattern's is a wildcard, so a `*` that meets a `*` of the name stands for it alone;
`Reads` says what is matched then.
-/
namespace Pluton.Exclusions

open Glob

/-! ## The loop -/

/-- The variables of the loop; `star` is -1 as long as no `*` was taken. -/
structure Cursor where
  p : Nat
  v : Nat
  star : Option Nat
  retry : Nat

def Cursor.start : Cursor := ⟨0, 0, none, 0⟩

/-- The second loop, and the verdict. -/
def afterName (tokens : List Char) (p : Nat) : Bool :=
  p + ((tokens.drop p).takeWhile (· == '*')).length == tokens.length

/-- One turn of the loop: where it goes on, or the verdict. -/
def turn (tokens chars : List Char) (c : Cursor) : Cursor ⊕ Bool :=
  match chars[c.v]? with
  | none => .inr (afterName tokens c.p)
  | some ch =>
    if tokens[c.p]? = some '?' ∨ tokens[c.p]? = some ch then
      .inl { c with p := c.p + 1, v := c.v + 1 }
    else if tokens[c.p]? = some '*' then
      .inl { c with p := c.p + 1, star := some c.p, retry := c.v }
    else
      match c.star with
      | some star => .inl { c with p := star + 1, v := c.retry + 1, retry := c.retry + 1 }
      | none => .inr false

/-- At most `fuel` turns. -/
def run (tokens chars : List Char) : Nat → Cursor → Option Bool
  | 0, _ => none
  | fuel + 1, c =>
    match turn tokens chars c with
    | .inl c' => run tokens chars fuel c'
    | .inr verdict => some verdict

/-- More turns than the loop takes. -/
def turns (tokens chars : List Char) : Nat := (tokens.length + 2) * (chars.length + 1) ^ 2

def segmentMatches (pattern value : String) : Bool :=
  (run pattern.toList value.toList (turns pattern.toList value.toList) .start).getD false

/-! ## What a segment means -/

/-- What a character of a segment stands for. -/
def charToken (ch : Char) : Token Char :=
  if ch = '*' then .many else if ch = '?' then .one fun _ => true else .one (· == ch)

/-- The name can be split over the segment. -/
def Means (pattern value : String) : Prop := Matches (pattern.toList.map charToken) value.toList

/-- A name that the segment matches in such a way that each `*` which stands before a `*`
of the name takes exactly that character. -/
inductive Reads : List Char → List Char → Prop where
  | nil : Reads [] []
  | any {ch : Char} {tokens chars : List Char} (hrest : Reads tokens chars) :
      Reads ('?' :: tokens) (ch :: chars)
  | same {ch : Char} {tokens chars : List Char} (hrest : Reads tokens chars) :
      Reads (ch :: tokens) (ch :: chars)
  | run (run : List Char) {tokens chars : List Char} (hhead : (run ++ chars).head? ≠ some '*')
      (hrest : Reads tokens chars) : Reads ('*' :: tokens) (run ++ chars)

section
variable {tokens chars : List Char} {ch t : Char}

theorem reads_empty : Reads tokens [] ↔ ∀ t ∈ tokens, t = '*' := by
  induction tokens with
  | nil => exact ⟨fun _ => nofun, fun _ => .nil⟩
  | cons t tokens ih =>
      constructor
      · intro h
        generalize hword : ([] : List Char) = word at h
        cases h with
        | any => cases hword
        | same => cases hword
        | run run hhead hrest =>
            obtain ⟨rfl, rfl⟩ := List.append_eq_nil_iff.mp hword.symm
            exact List.forall_mem_cons.mpr ⟨rfl, ih.mp hrest⟩
      · intro h
        obtain ⟨rfl, hrest⟩ := List.forall_mem_cons.mp h
        exact .run [] nofun (ih.mpr hrest)

/-- A place of the segment that is no `*` takes one character. -/
theorem reads_place (ht : t ≠ '*') :
    Reads (t :: tokens) chars ↔
    ∃ ch rest, chars = ch :: rest ∧ (t = '?' ∨ t = ch) ∧ Reads tokens rest := by
  constructor
  · intro h
    cases h with
    | any hrest => exact ⟨_, _, rfl, .inl rfl, hrest⟩
    | same hrest => exact ⟨_, _, rfl, .inr rfl, hrest⟩
    | run => exact absurd rfl ht
  · rintro ⟨ch, rest, rfl, rfl | rfl, hrest⟩
    · exact .any hrest
    · exact .same hrest

/-- A `*` at a `*` of the name takes it. -/
theorem reads_star_star : Reads ('*' :: tokens) ('*' :: chars) ↔ Reads tokens chars := by
  constructor
  · intro h
    generalize hword : '*' :: chars = word at h
    cases h with
    | same hrest =>
        cases hword
        exact hrest
    | run run hhead hrest => exact absurd (by rw [← hword]; rfl) hhead
  · exact .same

/-- Another `*` takes a run. -/
theorem reads_star (hhead : chars.head? ≠ some '*') :
    Reads ('*' :: tokens) chars ↔ ∃ n, Reads tokens (chars.drop n) := by
  constructor
  · intro h
    cases h with
    | same => exact absurd rfl hhead
    | run run _ hrest => exact ⟨run.length, by rwa [List.drop_left]⟩
  · rintro ⟨n, hrest⟩
    have h := Reads.run (chars.take n) (by rwa [List.take_append_drop]) hrest
    rwa [List.take_append_drop] at h

theorem Reads.matches (h : Reads tokens chars) : Matches (tokens.map charToken) chars := by
  induction h with
  | nil => exact .nil
  | any _ ih =>
      rw [List.map_cons]
      exact .one rfl ih
  | @same ch tokens chars _ ih =>
      rw [List.map_cons, charToken]
      split
      · exact .many [ch] ih
      · split
        · exact .one rfl ih
        · exact .one (beq_self_eq_true ch) ih
  | run run _ _ ih => exact .many run ih

/-- A name without a `*` is read as it is meant. -/
theorem reads_of_matches (hplain : '*' ∉ chars) (h : Matches (tokens.map charToken) chars) :
    Reads tokens chars := by
  induction tokens generalizing chars with
  | nil =>
      rw [List.map_nil, matches_nil_iff] at h
      exact h ▸ .nil
  | cons t tokens ih =>
      rw [List.map_cons, charToken] at h
      split at h
      next ht =>
        have hhead : chars.head? ≠ some '*' := fun heq => hplain (List.mem_of_mem_head? heq)
        obtain ⟨n, hrest⟩ := matches_many_iff.mp h
        rw [ht, reads_star hhead]
        exact ⟨n, ih (fun hmem => hplain (List.mem_of_mem_drop hmem)) hrest⟩
      next ht =>
        rw [reads_place ht]
        cases chars with
        | nil =>
            split at h <;> exact absurd h not_matches_one_nil
        | cons ch chars =>
            have hrest : '*' ∉ chars := fun hmem => hplain (List.mem_cons_of_mem ch hmem)
            split at h
            next hany => exact ⟨ch, chars, rfl, .inl hany, ih hrest (matches_one_cons.mp h).2⟩
            next =>
              obtain ⟨hsame, hmatches⟩ := matches_one_cons.mp h
              exact ⟨ch, chars, rfl, .inr (beq_iff_eq.mp hsame).symm, ih hrest hmatches⟩

/-- The first token takes a character, or it is a `*` that takes a run. -/
theorem Reads.next (h : Reads (t :: tokens) chars) :
    (∃ ch rest, chars = ch :: rest ∧ Reads tokens rest) ∨
      (t = '*' ∧ chars.head? ≠ some '*' ∧ ∃ n, Reads tokens (chars.drop n)) := by
  cases h with
  | any hrest => exact .inl ⟨_, _, rfl, hrest⟩
  | same hrest => exact .inl ⟨_, _, rfl, hrest⟩
  | run run hhead hrest => exact .inr ⟨rfl, hhead, run.length, by rwa [List.drop_left]⟩

theorem drop_of_getElem? {α : Type} {list : List α} {i : Nat} {x : α} (h : list[i]? = some x) :
    list.drop i = x :: list.drop (i + 1) := by
  obtain ⟨hlt, rfl⟩ := List.getElem?_eq_some_iff.mp h
  exact List.drop_eq_getElem_cons hlt

/-! ## What the loop decides -/

/-- What a cursor can still find: a match from where it is, or one from a later place
after the last `*`. -/
def Open (tokens chars : List Char) (c : Cursor) : Prop :=
  Reads (tokens.drop c.p) (chars.drop c.v) ∨
    ∃ star, c.star = some star ∧ ∃ r, c.retry < r ∧ Reads (tokens.drop (star + 1)) (chars.drop r)

/-- The cursor's positions fit. Whatever the tokens after the last `*` match from its
place on, the tokens at `p` match from `v` on: no earlier `*` has to be tried again. -/
structure Ok (tokens chars : List Char) (c : Cursor) : Prop where
  p_le : c.p ≤ tokens.length
  v_le : c.v ≤ chars.length
  star_lt : ∀ star, c.star = some star → star < c.p ∧ c.retry ≤ c.v
  greedy : ∀ star, c.star = some star → ∀ r, c.retry ≤ r →
    Reads (tokens.drop (star + 1)) (chars.drop r) →
    ∃ v, c.v ≤ v ∧ Reads (tokens.drop c.p) (chars.drop v)

/-- It sinks with each turn. -/
def weight (tokens chars : List Char) (c : Cursor) : Nat :=
  (tokens.length + 1 - c.star.elim 0 (· + 1)) * (chars.length + 1) ^ 2 +
    (chars.length - c.retry) * (chars.length + 1) + (chars.length - c.v)

/-- A token that fits the character at `v` fits no sooner later on. -/
theorem later_next {p v v' : Nat} (htoken : tokens[p]? = some t) (hchar : chars[v]? = some ch)
    (hfits : t = '?' ∨ t = ch) (hle : v ≤ v') (h : Reads (tokens.drop p) (chars.drop v')) :
    ∃ v'', v + 1 ≤ v'' ∧ Reads (tokens.drop (p + 1)) (chars.drop v'') := by
  rw [drop_of_getElem? htoken] at h
  rcases h.next with ⟨ch', rest, hdrop, hrest⟩ | ⟨rfl, hhead, n, hrest⟩
  · have hdrop' : chars.drop (v' + 1) = rest := by rw [← List.tail_drop, hdrop, List.tail_cons]
    exact ⟨v' + 1, by omega, hdrop' ▸ hrest⟩
  · -- the run is not empty: at `v` itself the name has a `*`
    have hstar : ch = '*' := (hfits.resolve_left (by decide)).symm
    have hne : v ≠ v' := by
      rintro rfl
      exact hhead (by rw [List.head?_drop, hchar, hstar])
    exact ⟨v' + n, by omega, by rwa [List.drop_drop] at hrest⟩

theorem reads_fits {p v : Nat} (htoken : tokens[p]? = some t) (hchar : chars[v]? = some ch)
    (hfits : t = '?' ∨ t = ch) :
    Reads (tokens.drop p) (chars.drop v) ↔ Reads (tokens.drop (p + 1)) (chars.drop (v + 1)) := by
  rw [drop_of_getElem? htoken, drop_of_getElem? hchar]
  by_cases ht : t = '*'
  · subst ht
    obtain rfl : '*' = ch := hfits.resolve_left (by decide)
    exact reads_star_star
  · rw [reads_place ht]
    constructor
    · rintro ⟨ch', rest, heq, -, hrest⟩
      cases heq
      exact hrest
    · exact fun hrest => ⟨ch, _, rfl, hfits, hrest⟩

theorem ok_start : Ok tokens chars .start := ⟨Nat.zero_le _, Nat.zero_le _, nofun, nofun⟩

theorem open_start : Open tokens chars .start ↔ Reads tokens chars := by
  constructor
  · rintro (h | ⟨_, hstar, _⟩)
    · exact h
    · cases hstar
  · exact .inl

theorem weight_start : weight tokens chars .start < turns tokens chars := by
  simp only [weight, turns, Cursor.start, Option.elim_none, Nat.sub_zero]
  have hsquare : (chars.length + 1) ^ 2 = chars.length * (chars.length + 1) + chars.length + 1 := by
    rw [Nat.pow_two, Nat.succ_mul]
    rfl
  have hsum : (tokens.length + 2) * (chars.length + 1) ^ 2 =
      (tokens.length + 1) * (chars.length + 1) ^ 2 + (chars.length + 1) ^ 2 := Nat.succ_mul _ _
  omega

section
variable {c : Cursor}

theorem ok_fit (h : Ok tokens chars c) (htoken : tokens[c.p]? = some t)
    (hchar : chars[c.v]? = some ch) (hfits : t = '?' ∨ t = ch) :
    Ok tokens chars { c with p := c.p + 1, v := c.v + 1 } where
  p_le := (List.getElem?_eq_some_iff.mp htoken).1
  v_le := (List.getElem?_eq_some_iff.mp hchar).1
  star_lt := fun star hstar => ⟨Nat.lt_succ_of_lt (h.star_lt star hstar).1,
    Nat.le_succ_of_le (h.star_lt star hstar).2⟩
  greedy := fun star hstar r hr hreads => by
    obtain ⟨v, hv, hfrom⟩ := h.greedy star hstar r hr hreads
    exact later_next htoken hchar hfits hv hfrom

theorem open_fit (htoken : tokens[c.p]? = some t) (hchar : chars[c.v]? = some ch)
    (hfits : t = '?' ∨ t = ch) :
    Open tokens chars { c with p := c.p + 1, v := c.v + 1 } ↔ Open tokens chars c :=
  or_congr (reads_fits htoken hchar hfits).symm Iff.rfl

/-- A `*` that is taken: nothing before it is tried again. -/
theorem ok_star (h : Ok tokens chars c) (htoken : tokens[c.p]? = some '*') :
    Ok tokens chars { c with p := c.p + 1, star := some c.p, retry := c.v } where
  p_le := (List.getElem?_eq_some_iff.mp htoken).1
  v_le := h.v_le
  star_lt := by
    rintro star ⟨⟩
    exact ⟨Nat.lt_succ_self _, Nat.le_refl _⟩
  greedy := by
    rintro star ⟨⟩ r hr hreads
    exact ⟨r, hr, hreads⟩

theorem open_star (h : Ok tokens chars c) (htoken : tokens[c.p]? = some '*')
    (hchar : chars[c.v]? ≠ some '*') :
    Open tokens chars { c with p := c.p + 1, star := some c.p, retry := c.v } ↔
    Open tokens chars c := by
  have hhead : (chars.drop c.v).head? ≠ some '*' := by rwa [List.head?_drop]
  -- what the `*` reads is what the tokens behind it read at its place or later
  have hreads : Reads (tokens.drop c.p) (chars.drop c.v) ↔
      ∃ r, c.v ≤ r ∧ Reads (tokens.drop (c.p + 1)) (chars.drop r) := by
    rw [drop_of_getElem? htoken, reads_star hhead]
    constructor
    · rintro ⟨n, hrest⟩
      exact ⟨c.v + n, Nat.le_add_right _ _, by rwa [List.drop_drop] at hrest⟩
    · rintro ⟨r, hr, hrest⟩
      exact ⟨r - c.v, by rwa [List.drop_drop, Nat.add_sub_cancel' hr]⟩
  constructor
  · rintro (hnow | ⟨star, ⟨⟩, r, hr, hrest⟩)
    · exact .inl (hreads.mpr ⟨c.v, Nat.le_refl _, hnow⟩)
    · exact .inl (hreads.mpr ⟨r, Nat.le_of_lt hr, hrest⟩)
  · intro hopen
    have hfound : ∃ r, c.v ≤ r ∧ Reads (tokens.drop (c.p + 1)) (chars.drop r) := by
      rcases hopen with hnow | ⟨star, hstar, r, hr, hrest⟩
      · exact hreads.mp hnow
      · -- a match from an earlier `*` comes by this one
        obtain ⟨v, hv, hfrom⟩ := h.greedy star hstar r (Nat.le_of_lt hr) hrest
        rw [drop_of_getElem? htoken] at hfrom
        rcases hfrom.next with ⟨ch, rest, hdrop, hrest⟩ | ⟨-, -, n, hrest⟩
        · have hdrop' : chars.drop (v + 1) = rest := by rw [← List.tail_drop, hdrop, List.tail_cons]
          exact ⟨v + 1, Nat.le_succ_of_le hv, hdrop' ▸ hrest⟩
        · exact ⟨v + n, Nat.le_add_right_of_le hv, by rwa [List.drop_drop] at hrest⟩
    obtain ⟨r, hr, hrest⟩ := hfound
    rcases Nat.eq_or_lt_of_le hr with rfl | hlt
    · exact .inl hrest
    · exact .inr ⟨c.p, rfl, r, hlt, hrest⟩

/-- A token that is no `*` and does not fit reads nothing here. -/
theorem not_reads_misfit (hchar : chars[c.v]? = some ch) (hany : tokens[c.p]? ≠ some '?')
    (hsame : tokens[c.p]? ≠ some ch) (hstar : tokens[c.p]? ≠ some '*') :
    ¬ Reads (tokens.drop c.p) (chars.drop c.v) := by
  rw [drop_of_getElem? hchar]
  cases htoken : tokens[c.p]? with
  | none =>
      rw [List.drop_eq_nil_of_le (List.getElem?_eq_none_iff.mp htoken)]
      nofun
  | some t =>
      rw [drop_of_getElem? htoken, reads_place fun heq => hstar (heq ▸ htoken)]
      rintro ⟨ch', rest, heq, rfl | rfl, -⟩
      · exact hany htoken
      · cases heq
        exact hsame htoken

theorem ok_retry {star : Nat} (h : Ok tokens chars c) (hstar : c.star = some star)
    (hchar : chars[c.v]? = some ch) :
    Ok tokens chars { c with p := star + 1, v := c.retry + 1, retry := c.retry + 1 } where
  p_le := Nat.le_trans (h.star_lt star hstar).1 h.p_le
  v_le := Nat.lt_of_le_of_lt (h.star_lt star hstar).2 (List.getElem?_eq_some_iff.mp hchar).1
  star_lt := fun star' hstar' => by
    obtain rfl : star = star' := Option.some.inj (hstar.symm.trans hstar')
    exact ⟨Nat.lt_succ_self _, Nat.le_refl _⟩
  greedy := fun star' hstar' r hr hreads => by
    obtain rfl : star = star' := Option.some.inj (hstar.symm.trans hstar')
    exact ⟨r, hr, hreads⟩

theorem open_retry {star : Nat} (hstar : c.star = some star)
    (hmisfit : ¬ Reads (tokens.drop c.p) (chars.drop c.v)) :
    Open tokens chars { c with p := star + 1, v := c.retry + 1, retry := c.retry + 1 } ↔
    Open tokens chars c := by
  constructor
  · rintro (hnow | ⟨star', hstar', r, hr, hrest⟩)
    · exact .inr ⟨star, hstar, c.retry + 1, Nat.lt_succ_self _, hnow⟩
    · exact .inr ⟨star', hstar', r, Nat.lt_of_succ_lt hr, hrest⟩
  · rintro (hnow | ⟨star', hstar', r, hr, hrest⟩)
    · exact absurd hnow hmisfit
    · obtain rfl : star = star' := Option.some.inj (hstar.symm.trans hstar')
      rcases Nat.eq_or_lt_of_le (Nat.succ_le_of_lt hr) with rfl | hlt
      · exact .inl hrest
      · exact .inr ⟨star, hstar, r, hlt, hrest⟩

/-- The name is over: only `*` may be left. -/
theorem afterName_iff (h : Ok tokens chars c) (hchar : chars[c.v]? = none) :
    afterName tokens c.p = true ↔ Open tokens chars c := by
  have hover : ∀ {v}, c.v ≤ v → chars.drop v = [] := fun hv =>
    List.drop_eq_nil_of_le (Nat.le_trans (List.getElem?_eq_none_iff.mp hchar) hv)
  have hname : afterName tokens c.p = true ↔ ∀ t ∈ tokens.drop c.p, t = '*' := by
    have hlength : (tokens.drop c.p).length = tokens.length - c.p := List.length_drop
    have hle := h.p_le
    rw [afterName, beq_iff_eq]
    constructor
    · intro heq
      have hall := (List.takeWhile_prefix (l := tokens.drop c.p) (· == '*')).eq_of_length (by omega)
      exact fun t ht => beq_iff_eq.mp (List.takeWhile_eq_self_iff.mp hall t ht)
    · intro hall
      rw [List.takeWhile_eq_self_iff.mpr fun t ht => beq_iff_eq.mpr (hall t ht)]
      omega
  rw [hname, ← reads_empty]
  constructor
  · exact fun hreads => .inl ((hover (Nat.le_refl _)).symm ▸ hreads)
  · rintro (hnow | ⟨star, hstar, r, hr, hrest⟩)
    · exact hover (Nat.le_refl _) ▸ hnow
    · obtain ⟨v, hv, hfrom⟩ := h.greedy star hstar r (Nat.le_of_lt hr) hrest
      exact hover hv ▸ hfrom

/-! ## Turns and runs -/

theorem weight_fit (hchar : chars[c.v]? = some ch) :
    weight tokens chars { c with p := c.p + 1, v := c.v + 1 } < weight tokens chars c := by
  have hlt := (List.getElem?_eq_some_iff.mp hchar).1
  simp only [weight]
  omega

theorem weight_star (h : Ok tokens chars c) (htoken : tokens[c.p]? = some '*') :
    weight tokens chars { c with p := c.p + 1, star := some c.p, retry := c.v } <
      weight tokens chars c := by
  have hp := (List.getElem?_eq_some_iff.mp htoken).1
  have hold : c.star.elim 0 (· + 1) ≤ c.p := by
    cases hstar : c.star with
    | none => exact Nat.zero_le _
    | some star => exact (h.star_lt star hstar).1
  have hfirst : (tokens.length + 1 - (c.p + 1)) * (chars.length + 1) ^ 2 + (chars.length + 1) ^ 2 ≤
      (tokens.length + 1 - c.star.elim 0 (· + 1)) * (chars.length + 1) ^ 2 := by
    rw [← Nat.succ_mul]
    exact Nat.mul_le_mul_right _ (by omega)
  have hrest : (chars.length - c.v) * (chars.length + 1) ≤ chars.length * (chars.length + 1) :=
    Nat.mul_le_mul_right _ (Nat.sub_le _ _)
  have hsquare : (chars.length + 1) ^ 2 = chars.length * (chars.length + 1) + chars.length + 1 := by
    rw [Nat.pow_two, Nat.succ_mul]
    rfl
  simp only [weight, Option.elim_some]
  omega

theorem weight_retry {star : Nat} (h : Ok tokens chars c) (hstar : c.star = some star)
    (hchar : chars[c.v]? = some ch) :
    weight tokens chars { c with p := star + 1, v := c.retry + 1, retry := c.retry + 1 } <
      weight tokens chars c := by
  have hv := (List.getElem?_eq_some_iff.mp hchar).1
  have hretry := (h.star_lt star hstar).2
  have hsum : (chars.length - c.retry) * (chars.length + 1) =
      (chars.length - (c.retry + 1)) * (chars.length + 1) + (chars.length + 1) := by
    rw [← Nat.succ_mul]
    exact congrArg (· * _) (by omega)
  simp only [weight]
  omega

/-- What a turn keeps, and what its verdict says. -/
def Turned (tokens chars : List Char) (c : Cursor) : Cursor ⊕ Bool → Prop
  | .inl c' => Ok tokens chars c' ∧ (Open tokens chars c' ↔ Open tokens chars c) ∧
      weight tokens chars c' < weight tokens chars c
  | .inr verdict => verdict = true ↔ Open tokens chars c

theorem turned (h : Ok tokens chars c) : Turned tokens chars c (turn tokens chars c) := by
  unfold turn
  cases hchar : chars[c.v]? with
  | none => exact afterName_iff h hchar
  | some ch =>
      dsimp only
      split
      next hfits =>
        obtain ⟨t, htoken, hfits⟩ : ∃ t, tokens[c.p]? = some t ∧ (t = '?' ∨ t = ch) := by
          rcases hfits with htoken | htoken
          · exact ⟨_, htoken, .inl rfl⟩
          · exact ⟨_, htoken, .inr rfl⟩
        exact ⟨ok_fit h htoken hchar hfits, open_fit htoken hchar hfits, weight_fit hchar⟩
      next hfits =>
        obtain ⟨hany, hsame⟩ := not_or.mp hfits
        split
        next htoken =>
          have hother : chars[c.v]? ≠ some '*' := fun heq =>
            hsame (htoken.trans (heq.symm.trans hchar))
          exact ⟨ok_star h htoken, open_star h htoken hother, weight_star h htoken⟩
        next htoken =>
          have hmisfit := not_reads_misfit hchar hany hsame htoken
          split
          next star hstar =>
            exact ⟨ok_retry h hstar hchar, open_retry hstar hmisfit, weight_retry h hstar hchar⟩
          next hstar =>
            refine ⟨nofun, ?_⟩
            rintro (hnow | ⟨star, hsome, -⟩)
            · exact absurd hnow hmisfit
            · exact absurd (hstar.symm.trans hsome) nofun

/-- With as many turns as its weight allows, a cursor comes to its verdict. -/
theorem run_eq {fuel : Nat} (h : Ok tokens chars c) (hfuel : weight tokens chars c < fuel) :
    ∃ verdict, run tokens chars fuel c = some verdict ∧ (verdict = true ↔ Open tokens chars c) := by
  induction fuel generalizing c with
  | zero => exact absurd hfuel (Nat.not_lt_zero _)
  | succ fuel ih =>
      have hturned := turned h
      unfold run
      cases hturn : turn tokens chars c with
      | inr verdict =>
          rw [hturn] at hturned
          exact ⟨verdict, rfl, hturned⟩
      | inl c' =>
          rw [hturn] at hturned
          obtain ⟨hok, hopen, hweight⟩ := hturned
          obtain ⟨verdict, hrun, hverdict⟩ := ih hok (by omega)
          exact ⟨verdict, hrun, hverdict.trans hopen⟩

end

end

/-! ## The matcher -/

theorem run_ends (pattern value : String) :
    run pattern.toList value.toList (turns pattern.toList value.toList) .start =
      some (segmentMatches pattern value) := by
  have hturns : weight pattern.toList value.toList .start < _ := weight_start
  obtain ⟨verdict, hrun, -⟩ := run_eq ok_start hturns
  rw [segmentMatches, hrun]
  rfl

/-- The matcher decides `Reads`. -/
theorem segmentMatches_iff {pattern value : String} :
    segmentMatches pattern value = true ↔ Reads pattern.toList value.toList := by
  have hturns : weight pattern.toList value.toList .start < _ := weight_start
  obtain ⟨verdict, hrun, hverdict⟩ := run_eq ok_start hturns
  rw [run_ends] at hrun
  rw [Option.some.inj hrun, hverdict, open_start]

/-- A name without a `*` is judged right. -/
theorem segmentMatches_plain {pattern value : String} (hplain : '*' ∉ value.toList) :
    segmentMatches pattern value = true ↔ Means pattern value :=
  segmentMatches_iff.trans ⟨Reads.matches, reads_of_matches hplain⟩

/-- The matcher ends, and it is right exactly where a name that the segment matches can
also be read with every `*` at a `*` of the name taking just that character. -/
theorem segmentMatches_exact (pattern value : String) :
    ((∃ fuel, run pattern.toList value.toList fuel .start = some (segmentMatches pattern value)) ∧
        (segmentMatches pattern value = true ↔ Means pattern value)) ↔
      (Means pattern value → Reads pattern.toList value.toList) := by
  constructor
  · rintro ⟨-, hright⟩ hmeans
    exact segmentMatches_iff.mp (hright.mpr hmeans)
  · intro hreads
    exact ⟨⟨_, run_ends pattern value⟩, segmentMatches_iff.trans ⟨Reads.matches, hreads⟩⟩

/-- The pattern `*` does not match the name `*a`. -/
theorem segmentMatches_star_name :
    Envelope.parseBackupExclusions (fun ch => ch.isAlphanum) (some (Json.texts ["*"])) = .ok ["*"] ∧
      Means "*" "*a" ∧ segmentMatches "*" "*a" = false :=
  ⟨by decide +kernel, .many ['*', 'a'] .nil, by decide +kernel⟩

end Pluton.Exclusions
