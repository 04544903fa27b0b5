-- SUMMARY: The grammar of a dump's envelope, and what the two expressions find of it.
import Mathlib.Data.List.TakeWhile
import Pluton.RecoveryImport.Postgres

/-!
# Envelopes

Comments and whitespace as a grammar, and the lines around a dump. The expressions find a
header at the start of a text exactly if there is one, and a footer at its end nowhere else.
-/
namespace Pluton.RecoveryImport

open Utf8

/-! ## The grammar -/

/-- Comments with their line ends, and whitespace. -/
inductive Blank : List Char → Prop where
  | nil : Blank []
  | space {ch : Char} {rest : List Char} (white : Js.isWhitespace ch = true) (more : Blank rest) :
      Blank (ch :: rest)
  | comment {body line rest : List Char} (unbroken : ∀ ch ∈ body, isBreak ch = false)
      (feed : lineFeed line = some rest)
      (more : Blank rest) : Blank ('-' :: '-' :: (body ++ line))

/-- Comments and whitespace up to the end of the text, where a comment needs no line end. -/
def BlankEnd (text : List Char) : Prop :=
  ∃ front, Blank front ∧ (text = front ∨
    ∃ body, (∀ ch ∈ body, isBreak ch = false) ∧ text = front ++ '-' :: '-' :: body)

/-- `\r\n` or `\n` -/
def IsFeed (feed : List Char) : Prop := feed = ['\n'] ∨ feed = ['\r', '\n']

def IsKey (key : List Char) : Prop := key ≠ [] ∧ ∀ ch ∈ key, Pattern.alnum ch = true

/-- Comments and whitespace, ended by a `\restrict` line. -/
def IsHeader (key text : List Char) : Prop :=
  IsKey key ∧ ∃ blank feed, Blank blank ∧ IsFeed feed ∧
    text = blank ++ ("\\restrict ".toList ++ key ++ feed)

/-- A line break, an `\unrestrict` line, comments and whitespace. -/
def IsFooter (key text : List Char) : Prop :=
  ∃ feed rest, IsFeed feed ∧ BlankEnd rest ∧
    text = '\n' :: ("\\unrestrict ".toList ++ key ++ feed ++ rest)

/-! ## Skipping -/

section
variable {text rest front : List Char} {ch : Char} {fuel : Nat}

theorem lineFeed_eq_some : lineFeed text = some rest ↔
    text = '\n' :: rest ∨ text = '\r' :: '\n' :: rest := by
  unfold lineFeed
  split
  next more => simp
  next more => simp
  next h h' =>
    refine iff_of_false nofun ?_
    rintro (rfl | rfl)
    · exact h _ rfl
    · exact h' _ rfl

theorem lineFeed_feed {feed : List Char} (h : IsFeed feed) (rest : List Char) :
    lineFeed (feed ++ rest) = some rest := by
  rcases h with rfl | rfl
  · exact lineFeed_eq_some.mpr (.inl rfl)
  · exact lineFeed_eq_some.mpr (.inr rfl)

theorem exists_feed (h : lineFeed text = some rest) :
    ∃ feed, IsFeed feed ∧ text = feed ++ rest := by
  rcases lineFeed_eq_some.mp h with rfl | rfl
  · exact ⟨_, .inl rfl, rfl⟩
  · exact ⟨_, .inr rfl, rfl⟩

theorem lineEnd_eq_some : lineEnd text = some rest ↔
    lineFeed text = some rest ∨ text = [] ∧ rest = [] := by
  cases text with
  | nil =>
      rw [lineEnd, List.isEmpty_nil, if_pos rfl]
      constructor
      · rintro ⟨⟩
        exact .inr ⟨rfl, rfl⟩
      · rintro (h | ⟨-, rfl⟩)
        · cases h
        · rfl
  | cons ch text =>
      rw [lineEnd, List.isEmpty_cons, if_neg Bool.false_ne_true]
      exact ⟨.inl, fun h => h.resolve_right fun hnil => List.cons_ne_nil _ _ hnil.1⟩

/-- What ends a comment begins with a line break. -/
theorem dropWhile_comment {body line : List Char} (hbody : ∀ ch ∈ body, isBreak ch = false)
    (hline : lineFeed line = some rest ∨ line = [] ∧ rest = []) :
    (body ++ line).dropWhile (!isBreak ·) = line := by
  rw [List.dropWhile_append_of_pos fun ch hch => by rw [hbody ch hch]; rfl]
  rcases hline with hfeed | ⟨rfl, -⟩
  · rcases lineFeed_eq_some.mp hfeed with rfl | rfl <;> rfl
  · rfl

/-- What one turn takes: a whitespace character, a comment with its line end, or a comment at
the end of the text. -/
theorem skipOne_eq_some : skipOne text = some rest ↔
    (∃ ch, Js.isWhitespace ch = true ∧ text = ch :: rest) ∨
    ∃ body line, (∀ ch ∈ body, isBreak ch = false) ∧ text = '-' :: '-' :: (body ++ line) ∧
      (lineFeed line = some rest ∨ line = [] ∧ rest = []) := by
  constructor
  · intro h
    unfold skipOne at h
    split at h
    next more =>
      refine .inr ⟨more.takeWhile (!isBreak ·), more.dropWhile (!isBreak ·), fun ch hch => ?_, ?_,
        lineEnd_eq_some.mp h⟩
      · simpa using List.mem_takeWhile_imp hch
      · rw [List.takeWhile_append_dropWhile]
    next ch more _ =>
      split at h
      next hwhite =>
        cases h
        exact .inl ⟨ch, hwhite, rfl⟩
      · cases h
    · cases h
  · rintro (⟨ch, hwhite, rfl⟩ | ⟨body, line, hbody, rfl, hline⟩)
    · unfold skipOne
      split
      next heq =>
        obtain ⟨rfl, -⟩ := List.cons.inj heq
        exact absurd hwhite (by decide)
      next heq =>
        obtain ⟨rfl, rfl⟩ := List.cons.inj heq
        exact if_pos hwhite
      next heq => cases heq
    · rw [skipOne, dropWhile_comment hbody hline]
      exact lineEnd_eq_some.mpr hline

theorem length_skipOne (h : skipOne text = some rest) : rest.length < text.length := by
  rcases skipOne_eq_some.mp h with ⟨ch, -, rfl⟩ | ⟨body, line, -, rfl, hline⟩
  · exact Nat.lt_succ_self _
  · rcases hline with hfeed | ⟨rfl, rfl⟩
    · rcases lineFeed_eq_some.mp hfeed with rfl | rfl <;>
        simp only [List.length_cons, List.length_append] <;> omega
    · exact Nat.succ_pos _

theorem skipWith_eq (h : text.length ≤ fuel) : skipWith fuel text = skip text := by
  have hcongr : ∀ fuel fuel' text, text.length ≤ fuel → text.length ≤ fuel' →
      skipWith fuel text = skipWith fuel' text := by
    intro fuel
    induction fuel with
    | zero =>
        intro fuel' text h h'
        obtain rfl := List.eq_nil_of_length_eq_zero (Nat.le_zero.mp h)
        cases fuel' <;> rfl
    | succ fuel ih =>
        intro fuel' text h h'
        cases fuel' with
        | zero =>
            obtain rfl := List.eq_nil_of_length_eq_zero (Nat.le_zero.mp h')
            rfl
        | succ fuel' =>
            rw [skipWith, skipWith]
            cases hone : skipOne text with
            | none => rfl
            | some rest =>
                have hless := length_skipOne hone
                exact ih fuel' rest (by omega) (by omega)
  exact hcongr fuel text.length text h (Nat.le_refl _)

theorem skip_of_some (h : skipOne text = some rest) : skip text = skip rest := by
  have hless := length_skipOne h
  obtain ⟨n, hn⟩ : ∃ n, text.length = n + 1 := ⟨text.length - 1, by omega⟩
  rw [skip, hn, skipWith, h]
  exact skipWith_eq (by omega)

theorem skip_of_none (h : skipOne text = none) : skip text = text := by
  rw [skip]
  cases text.length with
  | zero => rfl
  | succ n => rw [skipWith, h]

/-- What comments and whitespace are followed by stands behind them. -/
theorem Blank.skip_append {blank : List Char} (h : Blank blank) (rest : List Char) :
    skip (blank ++ rest) = skip rest := by
  induction h with
  | nil => rfl
  | space white more ih =>
      rw [List.cons_append, skip_of_some (skipOne_eq_some.mpr (.inl ⟨_, white, rfl⟩)), ih]
  | @comment body line more unbroken feed _ ih =>
      have hfeed : lineFeed (line ++ rest) = some (more ++ rest) := by
        rcases lineFeed_eq_some.mp feed with rfl | rfl
        · exact lineFeed_eq_some.mpr (.inl rfl)
        · exact lineFeed_eq_some.mpr (.inr rfl)
      rw [List.cons_append, List.cons_append, List.append_assoc,
        skip_of_some (skipOne_eq_some.mpr (.inr ⟨body, line ++ rest, unbroken, rfl, .inl hfeed⟩)),
        ih]

theorem Blank.append {blank more : List Char} (h : Blank blank) (h' : Blank more) :
    Blank (blank ++ more) := by
  induction h with
  | nil => exact h'
  | space white _ ih => exact .space white ih
  | @comment body line rest unbroken feed _ ih =>
      rw [List.cons_append, List.cons_append, List.append_assoc]
      refine .comment unbroken ?_ ih
      rcases lineFeed_eq_some.mp feed with rfl | rfl
      · exact lineFeed_eq_some.mpr (.inl rfl)
      · exact lineFeed_eq_some.mpr (.inr rfl)

theorem Blank.append_end {blank : List Char} (h : Blank blank) (h' : BlankEnd rest) :
    BlankEnd (blank ++ rest) := by
  obtain ⟨front, hfront, rfl | ⟨body, hbody, rfl⟩⟩ := h'
  · exact ⟨blank ++ rest, h.append hfront, .inl rfl⟩
  · exact ⟨blank ++ front, h.append hfront, .inr ⟨body, hbody, (List.append_assoc _ _ _).symm⟩⟩

/-- One turn takes comments and whitespace, up to the end if nothing is left. -/
theorem blank_of_skipOne (h : skipOne text = some rest) :
    (∃ blank, Blank blank ∧ text = blank ++ rest) ∨ rest = [] ∧ BlankEnd text := by
  rcases skipOne_eq_some.mp h with ⟨ch, hwhite, rfl⟩ | ⟨body, line, hbody, rfl, hfeed | ⟨rfl, rfl⟩⟩
  · exact .inl ⟨[ch], .space hwhite .nil, rfl⟩
  · obtain ⟨feed, hform, rfl⟩ := exists_feed hfeed
    refine .inl ⟨'-' :: '-' :: (body ++ feed), .comment hbody ?_ .nil, by simp⟩
    have hrest := lineFeed_feed hform []
    rw [List.append_nil] at hrest
    exact hrest
  · refine .inr ⟨rfl, [], .nil, .inr ⟨body, hbody, ?_⟩⟩
    rw [List.append_nil]
    rfl

/-- What was skipped is comments and whitespace, up to the end if nothing is left. -/
theorem exists_blank (text : List Char) :
    (∃ blank, Blank blank ∧ text = blank ++ skip text) ∨ skip text = [] ∧ BlankEnd text := by
  induction hlength : text.length using Nat.strongRecOn generalizing text with
  | ind n ih =>
      cases hone : skipOne text with
      | none => exact .inl ⟨[], .nil, (skip_of_none hone).symm⟩
      | some rest =>
          rw [skip_of_some hone]
          have hless := length_skipOne hone
          have hrest := ih rest.length (by omega) rest rfl
          rcases blank_of_skipOne hone with ⟨blank, hblank, rfl⟩ | ⟨rfl, hend⟩
          · rcases hrest with ⟨more, hmore, heq⟩ | ⟨hnil, hend⟩
            · refine .inl ⟨blank ++ more, hblank.append hmore, ?_⟩
              rw [List.append_assoc, ← heq]
            · exact .inr ⟨hnil, hblank.append_end hend⟩
          · exact .inr ⟨rfl, hend⟩

theorem skip_eq_nil : skip text = [] ↔ BlankEnd text := by
  constructor
  · intro h
    rcases exists_blank text with ⟨blank, hblank, heq⟩ | ⟨-, hend⟩
    · rw [h, List.append_nil] at heq
      exact ⟨blank, hblank, .inl heq⟩
    · exact hend
  · rintro ⟨front, hfront, rfl | ⟨body, hbody, rfl⟩⟩
    · have h := hfront.skip_append []
      rw [List.append_nil] at h
      exact h
    · rw [hfront.skip_append,
        skip_of_some (skipOne_eq_some.mpr (.inr ⟨body, [], hbody,
          by rw [List.append_nil], .inr ⟨rfl, rfl⟩⟩))]
      rfl

/-- A line break that is not in the first part of a text is behind it. -/
theorem break_behind {word line back : List Char} (hword : '\n' ∉ word)
    (h : front ++ '\n' :: back = word ++ line) :
    ∃ c, front = word ++ c ∧ line = c ++ '\n' :: back := by
  rcases List.append_eq_append_iff.mp h with ⟨c, hfront, hback⟩ | ⟨c, hfront, hline⟩
  · cases c with
    | nil => exact ⟨[], by rw [List.append_nil, hfront, List.append_nil], hback.symm⟩
    | cons first c =>
        obtain ⟨rfl, -⟩ := List.cons.inj hback
        exact absurd (hfront ▸ List.mem_append_right _ List.mem_cons_self) hword
  · exact ⟨c, hfront, hline⟩

theorem comment_unbroken {body : List Char} (hbody : ∀ ch ∈ body, isBreak ch = false) :
    '\n' ∉ '-' :: '-' :: body := by
  simp only [List.mem_cons, Char.reduceEq, false_or]
  exact fun hmem => absurd (hbody '\n' hmem) (by decide)

/-- A line break is the one of the line end, or behind it. -/
theorem feed_behind {line c back : List Char} (hfeed : lineFeed line = some rest)
    (h : line = c ++ '\n' :: back) :
    rest = back ∨ ∃ more, rest = more ++ '\n' :: back ∧ more.length < c.length := by
  rcases lineFeed_eq_some.mp hfeed with hform | hform <;> rw [hform] at h
  · cases c with
    | nil => exact .inl (List.cons.inj h).2
    | cons first c => exact .inr ⟨c, (List.cons.inj h).2, Nat.lt_succ_self _⟩
  · match c with
    | [] => cases (List.cons.inj h).1
    | [first] => exact .inl (List.cons.inj (List.cons.inj h).2).2
    | first :: second :: c =>
        exact .inr ⟨c, (List.cons.inj (List.cons.inj h).2).2,
          Nat.lt_trans (Nat.lt_succ_self _) (Nat.lt_succ_self _)⟩

/-- Behind a line break of comments and whitespace there are comments and whitespace. -/
theorem BlankEnd.behind {back : List Char} (h : BlankEnd (front ++ '\n' :: back)) :
    BlankEnd back := by
  rw [← skip_eq_nil] at h ⊢
  induction hlength : front.length using Nat.strongRecOn generalizing front with
  | ind n ih =>
      cases hone : skipOne (front ++ '\n' :: back) with
      | none =>
          rw [skip_of_none hone] at h
          exact absurd (List.append_eq_nil_iff.mp h).2 (List.cons_ne_nil _ _)
      | some rest =>
          rw [skip_of_some hone] at h
          have hmore : ∀ more, rest = more ++ '\n' :: back →
              more.length < front.length → skip back = [] :=
            fun more hrest hless => ih more.length (by omega) (hrest ▸ h) rfl
          rcases skipOne_eq_some.mp hone with ⟨ch, -, heq⟩ | ⟨body, line, hbody, heq, hline⟩
          · cases front with
            | nil => exact (List.cons.inj heq).2 ▸ h
            | cons first front => exact hmore front (List.cons.inj heq).2.symm (Nat.lt_succ_self _)
          · obtain ⟨c, hfront, hline'⟩ := break_behind (comment_unbroken hbody) heq
            have hless : c.length < front.length := by
              rw [hfront, List.length_append, List.length_cons]
              omega
            rcases hline with hfeed | ⟨hnil, -⟩
            · rcases feed_behind hfeed hline' with rfl | ⟨more, hrest, hshort⟩
              · exact h
              · exact hmore more hrest (Nat.lt_trans hshort hless)
            · rw [hnil] at hline'
              exact absurd (List.append_eq_nil_iff.mp hline'.symm).2 (List.cons_ne_nil _ _)

theorem skip_backslash (rest : List Char) : skip ('\\' :: rest) = '\\' :: rest := by
  refine skip_of_none (Option.eq_none_iff_forall_ne_some.mpr fun more h => ?_)
  rcases skipOne_eq_some.mp h with ⟨ch, hwhite, heq⟩ | ⟨body, line, -, heq, -⟩
  · obtain ⟨rfl, -⟩ := List.cons.inj heq
    exact absurd hwhite (by decide)
  · cases (List.cons.inj heq).1

/-- A line that begins with a backslash is no comment. -/
theorem not_blankEnd_backslash : ¬ BlankEnd ('\\' :: rest) := fun h => by
  rw [← skip_eq_nil, skip_backslash] at h
  cases h

end

/-! ## The expressions -/

section
variable {text rest key word : List Char}

theorem strip?_eq_some : strip? word text = some rest ↔ text = word ++ rest := by
  unfold strip?
  split
  next h =>
    obtain ⟨more, rfl⟩ := List.isPrefixOf_iff_prefix.mp h
    rw [List.drop_left, Option.some_inj, List.append_cancel_left_eq]
  next h =>
    refine iff_of_false nofun fun heq => h ?_
    exact List.isPrefixOf_iff_prefix.mpr ⟨rest, heq.symm⟩

theorem takeWhile_key {line : List Char} (hkey : IsKey key) (hline : lineFeed line = some rest) :
    (key ++ line).takeWhile Pattern.alnum = key ∧ (key ++ line).dropWhile Pattern.alnum = line := by
  have hstop : line.takeWhile Pattern.alnum = [] ∧ line.dropWhile Pattern.alnum = line := by
    rcases lineFeed_eq_some.mp hline with rfl | rfl <;> exact ⟨rfl, rfl⟩
  rw [List.takeWhile_append_of_pos hkey.2, List.dropWhile_append_of_pos hkey.2, hstop.1,
    hstop.2, List.append_nil]
  exact ⟨rfl, rfl⟩

/-- The first expression matches the header that a text begins with. -/
theorem envelope?_eq_some : envelope? text = some (key, rest) ↔
    ∃ header, IsHeader key header ∧ text = header ++ rest := by
  constructor
  · intro h
    obtain ⟨line, hline, h⟩ := Option.bind_eq_some_iff.mp h
    have hskip := strip?_eq_some.mp hline
    dsimp only at h
    split at h
    · cases h
    next hne =>
      obtain ⟨more, hfeed, h⟩ := Option.bind_eq_some_iff.mp h
      cases h
      obtain ⟨feed, hform, hrest⟩ := exists_feed hfeed
      have hkey : IsKey (line.takeWhile Pattern.alnum) :=
        ⟨fun hnil => hne (List.isEmpty_iff.mpr hnil), fun ch hch => List.mem_takeWhile_imp hch⟩
      rcases exists_blank text with ⟨blank, hblank, htext⟩ | ⟨hnil, -⟩
      · refine ⟨_, ⟨hkey, blank, feed, hblank, hform, rfl⟩, ?_⟩
        rw [htext, hskip, List.append_assoc, List.append_assoc, List.append_assoc, ← hrest,
          List.takeWhile_append_dropWhile]
      · rw [hnil] at hskip
        cases hskip
  · rintro ⟨header, ⟨hkey, blank, feed, hblank, hform, rfl⟩, rfl⟩
    have hfeed := lineFeed_feed hform rest
    obtain ⟨htake, hdrop⟩ := takeWhile_key hkey hfeed
    have hskip : skip (blank ++ ("\\restrict ".toList ++ key ++ feed) ++ rest) =
        "\\restrict ".toList ++ (key ++ (feed ++ rest)) := by
      rw [List.append_assoc, hblank.skip_append, List.append_assoc, List.append_assoc]
      exact skip_backslash _
    have hempty : key.isEmpty = false := List.isEmpty_eq_false_iff.mpr hkey.1
    refine Option.bind_eq_some_iff.mpr ⟨key ++ (feed ++ rest), strip?_eq_some.mpr hskip, ?_⟩
    dsimp only
    rw [htake, hdrop, hempty, hfeed]
    rfl

theorem unrestricts_iff : unrestricts key text = true ↔ ∃ feed rest, IsFeed feed ∧ BlankEnd rest ∧
    text = "\\unrestrict ".toList ++ key ++ (feed ++ rest) := by
  unfold unrestricts
  constructor
  · intro h
    split at h
    · cases h
    next line hline =>
      split at h
      · cases h
      next rest hfeed =>
        obtain ⟨feed, hform, rfl⟩ := exists_feed hfeed
        exact ⟨feed, rest, hform, skip_eq_nil.mp (List.isEmpty_iff.mp h), strip?_eq_some.mp hline⟩
  · rintro ⟨feed, rest, hform, hend, htext⟩
    rw [strip?_eq_some.mpr htext]
    dsimp only
    rw [lineFeed_feed hform rest]
    exact List.isEmpty_iff.mpr (skip_eq_nil.mpr hend)

theorem word_unbroken (hkey : IsKey key) : '\n' ∉ "\\unrestrict ".toList ++ key := by
  intro hmem
  rcases List.mem_append.mp hmem with hword | hmem
  · exact absurd hword (by decide)
  · exact absurd (hkey.2 '\n' hmem) (by decide)

/-- Behind a line break in an `\unrestrict` line and what follows, there are only comments and
whitespace. -/
theorem blankEnd_of_unrestricts {front back : List Char} (hkey : IsKey key)
    (h : unrestricts key (front ++ '\n' :: back) = true) :
    BlankEnd back := by
  obtain ⟨feed, rest, hform, hend, htext⟩ := unrestricts_iff.mp h
  obtain ⟨c, -, hline⟩ := break_behind (word_unbroken hkey) htext
  rcases feed_behind (lineFeed_feed hform rest) hline with rfl | ⟨more, rfl, -⟩
  · exact hend
  · exact hend.behind

/-- The second expression matches the footer that a text ends with, and nothing in front of it. -/
theorem footer?_append {footer : List Char} (hkey : IsKey key) (hfooter : IsFooter key footer)
    (body : List Char) :
    footer? key (body ++ footer) = some body.length := by
  obtain ⟨feed, rest, hform, hend, rfl⟩ := hfooter
  have hline : unrestricts key ("\\unrestrict ".toList ++ key ++ feed ++ rest) = true :=
    unrestricts_iff.mpr ⟨feed, rest, hform, hend, by rw [List.append_assoc _ feed]⟩
  refine List.find?_range_eq_some.mpr ⟨?_, ?_, fun i hi => ?_⟩
  · rw [footerAt, List.drop_left]
    exact Bool.or_eq_true_iff.mpr (.inr hline)
  · rw [List.mem_range, List.length_append]
    omega
  · -- a match in front of the footer would end in comments and whitespace, which the footer is not
    have hnone : ∀ part,
        unrestricts key (part ++ '\n' :: ("\\unrestrict ".toList ++ key ++ feed ++ rest)) ≠ true :=
      fun part hpart => not_blankEnd_backslash (blankEnd_of_unrestricts hkey hpart)
    rw [Bool.not_eq_true', Bool.eq_false_iff]
    intro hmatch
    rcases Bool.or_eq_true_iff.mp hmatch with hstart | hbreak
    · exact hnone body (Bool.and_eq_true_iff.mp hstart).2
    · rw [List.drop_append_of_le_length (Nat.le_of_lt hi), List.drop_eq_getElem_cons hi,
        List.cons_append] at hbreak
      split at hbreak
      next rest' heq =>
        obtain ⟨-, rfl⟩ := List.cons.inj heq
        exact hnone _ hbreak
      · cases hbreak

end

end Pluton.RecoveryImport
