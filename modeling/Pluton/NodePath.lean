-- SUMMARY: `normalize` of the runtime's path modules, and which double dots it leaves.
import Mathlib.Data.List.Basic

/-!
# Normalized paths

`path.posix.normalize` and `path.win32.normalize` split a path at its separators, drop empty parts
and single dots, and let `..` take the part in front of it. Where no part of a path is `..`, the
text holds two dots in a row exactly if the normalized text does.
-/
namespace NodePath

/-! ## Normalizing -/

def posixSeparator (ch : Char) : Bool := ch == '/'
def win32Separator (ch : Char) : Bool := ch == '/' || ch == '\\'

def dotdot : List Char := ['.', '.']

/-- The parts that stay, where `kept` are those so far, the last one first. -/
def keepParts (allowAboveRoot : Bool) : List (List Char) → List (List Char) → List (List Char)
  | kept, [] => kept.reverse
  | kept, part :: parts =>
    if part = [] ∨ part = ['.'] then keepParts allowAboveRoot kept parts
    else if part = dotdot then
      match kept with
      | last :: rest =>
        if last = dotdot then
          keepParts allowAboveRoot (if allowAboveRoot then part :: kept else kept) parts
        else keepParts allowAboveRoot rest parts
      | [] => keepParts allowAboveRoot (if allowAboveRoot then [part] else []) parts
    else keepParts allowAboveRoot (part :: kept) parts

/-- `normalizeString` -/
def normalizeString (allowAboveRoot : Bool) (separator : Char) (isSeparator : Char → Bool)
    (path : List Char) : List Char :=
  [separator].intercalate (keepParts allowAboveRoot [] (path.splitOnP isSeparator))

/-- `path.posix.normalize` -/
def posixNormalize (path : List Char) : List Char :=
  if path = [] then ['.']
  else
    let isAbsolute := path.head? = some '/'
    let trailing := path.getLast? = some '/'
    let kept := normalizeString (!isAbsolute) '/' posixSeparator path
    if kept = [] then (if isAbsolute then ['/'] else if trailing then ['.', '/'] else ['.'])
    else (if isAbsolute then ['/'] else []) ++ kept ++ (if trailing then ['/'] else [])

/-- The end of `path.win32.normalize`: the device, the root and what is behind them. -/
def win32Rest (device : List Char) (isAbsolute : Bool) (path behind : List Char) : List Char :=
  let kept := normalizeString (!isAbsolute) '\\' win32Separator behind
  let kept := if kept = [] ∧ isAbsolute = false then ['.'] else kept
  let kept := if kept ≠ [] ∧ (path.getLast?.any win32Separator) then kept ++ ['\\'] else kept
  device ++ (if isAbsolute then ['\\'] else []) ++ kept

/-- `path.win32.normalize` behind two separators: a share of a host, or nothing of the kind. -/
def win32Share (path rest : List Char) : List Char :=
  let host := rest.takeWhile fun ch => !win32Separator ch
  let behindHost := rest.dropWhile fun ch => !win32Separator ch
  let shareOn := behindHost.dropWhile win32Separator
  let share := shareOn.takeWhile fun ch => !win32Separator ch
  let behind := shareOn.dropWhile fun ch => !win32Separator ch
  if host = [] ∨ behindHost = [] ∨ shareOn = [] then win32Rest [] true path path
  else if behind = [] then ['\\', '\\'] ++ host ++ ['\\'] ++ share ++ ['\\']
  else win32Rest (['\\', '\\'] ++ host ++ ['\\'] ++ share) true path behind

/-- `path.win32.normalize` -/
def win32Normalize (path : List Char) : List Char :=
  match path with
  | [] => ['.']
  | [ch] => if ch = '/' then ['\\'] else [ch]
  | first :: second :: rest =>
    if win32Separator first then
      if win32Separator second then win32Share path rest
      else win32Rest [] true path (second :: rest)
    else if first.isAlpha ∧ second = ':' then
      match rest with
      | third :: more =>
        if win32Separator third then win32Rest [first, ':'] true path more
          else win32Rest [first, ':'] false path rest
      | [] => win32Rest [first, ':'] false path []
    else win32Rest [] false path path

/-- `path.posix.resolve` of an absolute path. -/
def posixResolve (path : List Char) : List Char :=
  '/' :: normalizeString false '/' posixSeparator path

/-- `path.win32.resolve` of a path behind the root of a drive. -/
def win32Resolve (drive : Char) (behind : List Char) : List Char :=
  [drive, ':', '\\'] ++ normalizeString false '\\' win32Separator behind

/-- The root in `path.win32.parse` of a path behind two separators. -/
def win32ShareRoot (first second : Char) (rest : List Char) : List Char :=
  let host := rest.takeWhile fun ch => !win32Separator ch
  let behindHost := rest.dropWhile fun ch => !win32Separator ch
  let between := behindHost.takeWhile win32Separator
  let shareOn := behindHost.dropWhile win32Separator
  let share := shareOn.takeWhile fun ch => !win32Separator ch
  if host = [] ∨ behindHost = [] ∨ shareOn = [] then [first]
  else [first, second] ++ host ++ between ++ share ++
    (shareOn.dropWhile fun ch => !win32Separator ch).take 1

/-- The root in `path.win32.parse`. -/
def win32Root (path : List Char) : List Char :=
  match path with
  | [] => []
  | [ch] => if win32Separator ch then [ch] else []
  | first :: second :: rest =>
    if win32Separator first then
      if win32Separator second then win32ShareRoot first second rest else [first]
    else if first.isAlpha ∧ second = ':' then [first, second] ++ (rest.take 1).filter win32Separator
    else []

/-! ## Double dots -/

/-- Two dots in a row. -/
def HasDots (text : List Char) : Prop := dotdot <:+: text

instance (text : List Char) : Decidable (HasDots text) := inferInstanceAs (Decidable (_ <:+: _))

section
variable {text other : List Char} {ch : Char} {parts : List (List Char)} {isSeparator : Char → Bool}

theorem hasDots_cons : HasDots (ch :: text) ↔
    (ch = '.' ∧ text.head? = some '.') ∨ HasDots text := by
  unfold HasDots dotdot
  rw [List.infix_cons_iff, List.cons_prefix_cons]
  cases text with
  | nil => simp
  | cons next text =>
      rw [List.cons_prefix_cons]
      simp only [List.nil_prefix, and_true, List.head?_cons, Option.some.injEq]
      constructor
      · rintro (⟨rfl, rfl⟩ | h)
        · exact .inl ⟨rfl, rfl⟩
        · exact .inr h
      · rintro (⟨rfl, rfl⟩ | h)
        · exact .inl ⟨rfl, rfl⟩
        · exact .inr h

theorem not_hasDots_nil : ¬ HasDots [] := by decide

theorem not_hasDots_singleton : ¬ HasDots [ch] := fun h => by
  have hlength := h.length_le
  rw [dotdot, List.length_cons, List.length_singleton, List.length_singleton] at hlength
  exact absurd hlength (by decide)

/-- A separator is not a dot, so two dots stand on one side of it. -/
theorem hasDots_append_cons (hch : ch ≠ '.') :
    HasDots (text ++ ch :: other) ↔ HasDots text ∨ HasDots other := by
  induction text with
  | nil =>
      rw [List.nil_append, hasDots_cons]
      exact ⟨fun h => .inr (h.resolve_left fun hdot => hch hdot.1),
        fun h => .inr (h.resolve_left not_hasDots_nil)⟩
  | cons first text ih =>
      have hhead : (text ++ ch :: other).head? = some '.' ↔ text.head? = some '.' := by
        cases text with
        | nil => simp [hch]
        | cons next text => simp
      rw [List.cons_append, hasDots_cons, hasDots_cons, ih, hhead, or_assoc]

theorem hasDots_concat (hch : ch ≠ '.') : HasDots (text ++ [ch]) ↔ HasDots text := by
  rw [hasDots_append_cons hch]
  exact or_iff_left not_hasDots_nil

theorem hasDots_cons_of_ne (hch : ch ≠ '.') : HasDots (ch :: text) ↔ HasDots text := by
  rw [hasDots_cons]
  exact or_iff_right fun h => hch h.1

/-- Joined parts have two dots exactly if one of them has. -/
theorem hasDots_intercalate (hch : ch ≠ '.') :
    HasDots ([ch].intercalate parts) ↔ ∃ part ∈ parts, HasDots part := by
  induction parts with
  | nil => simp [not_hasDots_nil]
  | cons part parts ih =>
      cases parts with
      | nil => simp
      | cons next parts =>
          rw [List.intercalate_cons_cons, List.append_assoc, List.singleton_append,
            hasDots_append_cons hch, ih]
          exact (List.exists_mem_cons_iff _ _ _).symm

/-- A path has no separator, or is cut at one. -/
theorem split_induction {motive : List Char → Prop} (isSeparator : Char → Bool)
    (whole : ∀ text, (∀ ch ∈ text, isSeparator ch = false) → motive text)
    (cut : ∀ front ch back, isSeparator ch = true → motive front → motive back →
      motive (front ++ ch :: back))
    (text : List Char) : motive text := by
  induction hlength : text.length using Nat.strongRecOn generalizing text with
  | ind n ih =>
      by_cases hfree : ∀ ch ∈ text, isSeparator ch = false
      · exact whole text hfree
      · simp only [not_forall, Bool.not_eq_false] at hfree
        obtain ⟨ch, hmem, hch⟩ := hfree
        obtain ⟨front, back, rfl⟩ := List.append_of_mem hmem
        rw [List.length_append, List.length_cons] at hlength
        exact cut front ch back hch (ih front.length (by omega) front rfl)
          (ih back.length (by omega) back rfl)

/-- The parts of a path have the double dots of the path. -/
theorem hasDots_splitOnP (hdot : isSeparator '.' = false) (text : List Char) :
    (∃ part ∈ text.splitOnP isSeparator, HasDots part) ↔ HasDots text := by
  induction text using split_induction isSeparator with
  | whole text hfree => simp [List.splitOnP_eq_singleton hfree]
  | cut front ch back hch ihFront ihBack =>
      have hne : ch ≠ '.' := fun heq => Bool.false_ne_true (hdot.symm.trans (heq ▸ hch))
      rw [List.splitOnP_append_cons _ _ hch, hasDots_append_cons hne, ← ihFront, ← ihBack]
      simp only [List.mem_append, or_and_right, exists_or]

end

/-! ## Without parent steps -/

/-- No part of the path is `..`. -/
def NoParent (isSeparator : Char → Bool) (path : List Char) : Prop :=
  dotdot ∉ path.splitOnP isSeparator

section
variable {allowAboveRoot isAbsolute : Bool} {separator ch first : Char} {isSeparator : Char → Bool}
  {path behind front back device : List Char} {kept parts : List (List Char)}

theorem noParent_append_cons (hch : isSeparator ch = true) :
    NoParent isSeparator (front ++ ch :: back) ↔
    NoParent isSeparator front ∧ NoParent isSeparator back := by
  unfold NoParent
  rw [List.splitOnP_append_cons _ _ hch, List.mem_append, not_or]

/-- A part stands between separators or ends of the path. -/
theorem part_cases {part : List Char} (hpart : part ∈ path.splitOnP isSeparator) :
    ∃ front back, path = front ++ part ++ back ∧
    (front = [] ∨ ∃ more ch, front = more ++ [ch] ∧ isSeparator ch = true) ∧
    (back = [] ∨ ∃ ch more, back = ch :: more ∧ isSeparator ch = true) := by
  induction path using split_induction isSeparator with
  | whole path hfree =>
      rw [List.splitOnP_eq_singleton hfree] at hpart
      exact ⟨[], [], by rw [List.mem_singleton.mp hpart, List.append_nil, List.nil_append],
        .inl rfl, .inl rfl⟩
  | cut left ch right hch ihLeft ihRight =>
      rw [List.splitOnP_append_cons _ _ hch] at hpart
      rcases List.mem_append.mp hpart with hpart | hpart
      · obtain ⟨front, back, rfl, hfront, hback⟩ := ihLeft hpart
        refine ⟨front, back ++ ch :: right, by rw [List.append_assoc], hfront, .inr ?_⟩
        rcases hback with rfl | ⟨next, more, rfl, hnext⟩
        · exact ⟨ch, right, rfl, hch⟩
        · exact ⟨next, more ++ ch :: right, rfl, hnext⟩
      · obtain ⟨front, back, rfl, hfront, hback⟩ := ihRight hpart
        refine ⟨left ++ ch :: front, back,
          by simp only [List.append_assoc, List.cons_append], .inr ?_, hback⟩
        rcases hfront with rfl | ⟨more, next, rfl, hnext⟩
        · exact ⟨left, ch, rfl, hch⟩
        · exact ⟨left ++ ch :: more, next, by rw [List.append_assoc, List.cons_append], hnext⟩

/-- `replace(/\\/g, '/')` -/
def toSlashes (path : List Char) : List Char := path.map fun ch => if ch = '\\' then '/' else ch

theorem hasDots_toSlashes (path : List Char) : HasDots (toSlashes path) ↔ HasDots path := by
  have hdot : ∀ ch : Char, (if ch = '\\' then '/' else ch) = '.' ↔ ch = '.' := by
    intro ch
    split
    next h => subst h; decide
    · rfl
  induction path with
  | nil => rfl
  | cons ch path ih =>
      have hhead : (toSlashes path).head? = some '.' ↔ path.head? = some '.' := by
        cases path with
        | nil => rfl
        | cons next path =>
            simp only [toSlashes, List.map_cons, List.head?_cons, Option.some.injEq, hdot]
      exact hasDots_cons.trans ((or_congr (and_congr (hdot ch) hhead) ih).trans hasDots_cons.symm)

/-- The parts of a Windows path are those behind slashes. -/
theorem noParent_toSlashes (path : List Char) :
    NoParent posixSeparator (toSlashes path) ↔ NoParent win32Separator path := by
  induction path using split_induction win32Separator with
  | whole path hfree =>
      have hplain : ∀ ch ∈ path, ch ≠ '\\' ∧ posixSeparator ch = false := by
        intro ch hmem
        have hch := hfree ch hmem
        simp only [win32Separator, Bool.or_eq_false_iff, beq_eq_false_iff_ne] at hch
        exact ⟨hch.2, beq_false_of_ne hch.1⟩
      have hsame : toSlashes path = path := by
        refine (List.map_congr_left fun ch hmem => ?_).trans (List.map_id path)
        rw [if_neg (hplain ch hmem).1]
        rfl
      unfold NoParent
      rw [hsame, List.splitOnP_eq_singleton hfree,
        List.splitOnP_eq_singleton fun ch hmem => (hplain ch hmem).2]
  | cut front ch back hch ihFront ihBack =>
      have hslash : (if ch = '\\' then '/' else ch) = '/' := by
        simp only [win32Separator, Bool.or_eq_true, beq_iff_eq] at hch
        rcases hch with rfl | rfl <;> rfl
      have hsplit : toSlashes (front ++ ch :: back) = toSlashes front ++ '/' :: toSlashes back := by
        rw [toSlashes, List.map_append, List.map_cons, hslash]
        rfl
      rw [hsplit, noParent_append_cons rfl, ihFront, ihBack, noParent_append_cons hch]

/-- What is a part for slashes alone is one for both. -/
theorem NoParent.posix (hpath : NoParent win32Separator path) : NoParent posixSeparator path := by
  induction path using split_induction posixSeparator with
  | whole path hfree =>
      intro hmem
      rw [List.splitOnP_eq_singleton hfree] at hmem
      obtain rfl := List.mem_singleton.mp hmem
      exact hpath (by decide)
  | cut front ch back hch ihFront ihBack =>
      have hboth : win32Separator ch = true := by rw [beq_iff_eq.mp hch]; rfl
      have hcut := (noParent_append_cons hboth).mp hpath
      exact (noParent_append_cons hch).mpr ⟨ihFront hcut.1, ihBack hcut.2⟩

/-- What is kept has the double dots of what there was. -/
theorem hasDots_keepParts (hparts : dotdot ∉ parts) :
    (∃ part ∈ keepParts allowAboveRoot kept parts, HasDots part) ↔
    (∃ part ∈ kept, HasDots part) ∨ ∃ part ∈ parts, HasDots part := by
  induction parts generalizing kept with
  | nil => simp [keepParts]
  | cons part parts ih =>
      rw [List.mem_cons, not_or] at hparts
      have hcons : (∃ p ∈ part :: parts, HasDots p) ↔ HasDots part ∨ ∃ p ∈ parts, HasDots p :=
        List.exists_mem_cons_iff _ _ _
      rw [keepParts.eq_def]
      dsimp only
      by_cases hempty : part = [] ∨ part = ['.']
      · have hnone : ¬ HasDots part := by rcases hempty with rfl | rfl <;> decide
        rw [if_pos hempty, ih hparts.2, hcons, or_iff_right hnone]
      · rw [if_neg hempty, if_neg (Ne.symm hparts.1), ih hparts.2, hcons, List.exists_mem_cons_iff,
          or_comm (a := HasDots part), or_assoc]

theorem hasDots_normalizeString (hsep : separator ≠ '.') (hdot : isSeparator '.' = false)
    (hpath : NoParent isSeparator path) :
    HasDots (normalizeString allowAboveRoot separator isSeparator path) ↔ HasDots path := by
  rw [normalizeString, hasDots_intercalate hsep, hasDots_keepParts hpath,
    ← hasDots_splitOnP hdot path]
  simp

/-- The normalized path has two dots exactly if the path has. -/
theorem hasDots_posixNormalize (hpath : NoParent posixSeparator path) :
    HasDots (posixNormalize path) ↔ HasDots path := by
  have hkept : ∀ allow, HasDots (normalizeString allow '/' posixSeparator path) ↔
      HasDots path := fun allow =>
    hasDots_normalizeString (by decide) rfl hpath
  unfold posixNormalize
  by_cases hnil : path = []
  · rw [if_pos hnil, hnil]
    decide
  rw [if_neg hnil]
  dsimp only
  split
  next hempty =>
    have hnone : ¬ HasDots path := fun h => by
      have hdots := (hkept (!decide (path.head? = some '/'))).mpr h
      rw [hempty] at hdots
      exact not_hasDots_nil hdots
    refine iff_of_false ?_ hnone
    repeat' split
    all_goals decide
  · rw [← hkept (!decide (path.head? = some '/'))]
    generalize normalizeString (!decide (path.head? = some '/')) '/' posixSeparator path = kept
    have hslash : '/' ≠ '.' := by decide
    split <;> split
    · rw [hasDots_concat hslash, List.singleton_append, hasDots_cons_of_ne hslash]
    · rw [List.append_nil, List.singleton_append, hasDots_cons_of_ne hslash]
    · rw [hasDots_concat hslash, List.nil_append]
    · rw [List.append_nil, List.nil_append]

/-! ## Without parent steps, on Windows -/

theorem hasDots_dropWhile (path : List Char) :
    HasDots (path.dropWhile win32Separator) ↔ HasDots path := by
  induction path with
  | nil => rfl
  | cons ch path ih =>
      by_cases hch : win32Separator ch = true
      · have hne : ch ≠ '.' := fun heq => absurd (heq ▸ hch) (by decide)
        rw [List.dropWhile_cons_of_pos hch, hasDots_cons_of_ne hne, ih]
      · rw [List.dropWhile_cons_of_neg hch]

theorem noParent_nil : NoParent win32Separator [] :=
  fun h => absurd (List.mem_singleton.mp h) (by decide)

theorem noParent_cons (hch : win32Separator ch = true) :
    NoParent win32Separator (ch :: back) ↔ NoParent win32Separator back := by
  have hcut : NoParent win32Separator ([] ++ ch :: back) ↔
      NoParent win32Separator [] ∧ NoParent win32Separator back :=
    noParent_append_cons hch
  exact hcut.trans (and_iff_right noParent_nil)

theorem NoParent.dropWhile (hpath : NoParent win32Separator path) :
    NoParent win32Separator (path.dropWhile win32Separator) := by
  induction path with
  | nil => exact hpath
  | cons ch path ih =>
      by_cases hch : win32Separator ch = true
      · rw [List.dropWhile_cons_of_pos hch]
        exact ih ((noParent_cons hch).mp hpath)
      · rwa [List.dropWhile_cons_of_neg hch]

theorem hasDots_win32Rest (hbehind : NoParent win32Separator behind) :
    HasDots (win32Rest device true path behind) ↔ HasDots device ∨ HasDots behind := by
  have hslash : '\\' ≠ '.' := by decide
  have hkept : HasDots (normalizeString (!true) '\\' win32Separator behind) ↔ HasDots behind :=
    hasDots_normalizeString hslash rfl hbehind
  unfold win32Rest
  dsimp only
  rw [if_neg (fun h : _ ∧ true = false => Bool.noConfusion h.2), if_pos rfl, List.append_assoc,
    List.singleton_append, hasDots_append_cons hslash, ← hkept]
  split
  · rw [hasDots_concat hslash]
  · rfl

/-- Without a root, behind nothing or behind a drive. A first part `..` is kept there. -/
theorem hasDots_win32Rest_relative (hdevice : device = [] ∨ device = [first, ':'])
    (hbehind : NoParent win32Separator behind ∨
      ∃ parts, behind.splitOnP win32Separator = dotdot :: parts ∧ dotdot ∉ parts) :
    HasDots (win32Rest device false path behind) ↔ HasDots behind := by
  have hslash : '\\' ≠ '.' := by decide
  have hkept : HasDots (normalizeString (!false) '\\' win32Separator behind) ↔ HasDots behind := by
    rcases hbehind with hnone | ⟨parts, hsplit, hparts⟩
    · exact hasDots_normalizeString hslash rfl hnone
    · have hdots : HasDots behind :=
        (hasDots_splitOnP rfl behind).mp ⟨dotdot, hsplit ▸ List.mem_cons_self, by decide⟩
      refine iff_of_true ?_ hdots
      have hfirst : keepParts (!false) [] (dotdot :: parts) = keepParts true [dotdot] parts := rfl
      rw [normalizeString, hsplit, hasDots_intercalate hslash, hfirst, hasDots_keepParts hparts]
      exact .inl ⟨dotdot, List.mem_singleton_self _, by decide⟩
  have hdot : ∀ kept : List Char,
      HasDots (if kept = [] ∧ false = false then ['.'] else kept) ↔ HasDots kept := by
    intro kept
    split
    next h => exact iff_of_false (by decide) (h.1 ▸ not_hasDots_nil)
    · rfl
  have hfront : ∀ kept, HasDots (device ++ [] ++ kept) ↔ HasDots kept := by
    intro kept
    rw [List.append_nil]
    rcases hdevice with rfl | rfl
    · rfl
    · have hcolon : HasDots ([first] ++ ':' :: kept) ↔ HasDots [first] ∨ HasDots kept :=
        hasDots_append_cons (by decide)
      exact hcolon.trans (or_iff_right not_hasDots_singleton)
  unfold win32Rest
  dsimp only
  rw [if_neg Bool.false_ne_true, hfront, ← hkept,
    ← hdot (normalizeString (!false) '\\' win32Separator behind)]
  generalize (if normalizeString (!false) '\\' win32Separator behind = [] ∧ false = false then ['.']
    else normalizeString (!false) '\\' win32Separator behind) = kept
  split
  · rw [hasDots_concat hslash]
  · rfl

/-- A path ends in front of a separator, or has none. -/
theorem span_cases (path : List Char) :
    (path.dropWhile fun ch => !win32Separator ch) = [] ∧
    (path.takeWhile fun ch => !win32Separator ch) = path ∨
    ∃ ch back, (path.dropWhile fun ch => !win32Separator ch) = ch :: back ∧
      win32Separator ch = true ∧
      path = (path.takeWhile fun ch => !win32Separator ch) ++ ch :: back := by
  have hsplit : (path.takeWhile fun ch => !win32Separator ch) ++
      (path.dropWhile fun ch => !win32Separator ch) = path :=
    List.takeWhile_append_dropWhile
  have hhead := List.head?_dropWhile_not (fun ch => !win32Separator ch) path
  cases hrest : path.dropWhile fun ch => !win32Separator ch with
  | nil =>
      rw [hrest, List.append_nil] at hsplit
      exact .inl ⟨rfl, hsplit⟩
  | cons ch back =>
      rw [hrest] at hsplit hhead
      exact .inr ⟨ch, back, rfl, by simpa using hhead, hsplit.symm⟩

theorem hasDots_span (path : List Char) : HasDots path ↔
    HasDots (path.takeWhile fun ch => !win32Separator ch) ∨
    HasDots (path.dropWhile fun ch => !win32Separator ch) := by
  rcases span_cases path with ⟨hrest, hall⟩ | ⟨ch, back, hrest, hch, hsplit⟩
  · rw [hrest, hall, or_iff_left not_hasDots_nil]
  · have hne : ch ≠ '.' := fun heq => absurd (heq ▸ hch) (by decide)
    rw [hrest, hasDots_cons_of_ne hne, ← hasDots_append_cons hne, ← hsplit]

theorem NoParent.span (hpath : NoParent win32Separator path) :
    NoParent win32Separator (path.dropWhile fun ch => !win32Separator ch) := by
  rcases span_cases path with ⟨hrest, -⟩ | ⟨ch, back, hrest, hch, hsplit⟩
  · rw [hrest]
    exact noParent_nil
  · rw [hsplit] at hpath
    rw [hrest]
    exact (noParent_cons hch).mpr ((noParent_append_cons hch).mp hpath).2

/-- Behind a drive, the first part can be a parent step. -/
theorem NoParent.behind_drive {rest : List Char}
    (hpath : NoParent win32Separator (first :: ':' :: rest))
    (hfirst : ¬ win32Separator first = true) :
    NoParent win32Separator rest ∨
    ∃ parts, rest.splitOnP win32Separator = dotdot :: parts ∧ dotdot ∉ parts := by
  have hcolon : ¬ win32Separator ':' = true := by decide
  cases hparts : rest.splitOnP win32Separator with
  | nil => exact absurd hparts (List.splitOnP_ne_nil _ rest)
  | cons part parts =>
      unfold NoParent at hpath ⊢
      rw [List.splitOnP_cons_eq_if_modifyHead, if_neg hfirst, List.splitOnP_cons_eq_if_modifyHead,
        if_neg hcolon, hparts, List.modifyHead_cons, List.modifyHead_cons,
        List.mem_cons, not_or] at hpath
      by_cases hpart : part = dotdot
      · exact .inr ⟨parts, congrArg (· :: parts) hpart, hpath.2⟩
      · refine .inl fun hmem => ?_
        rw [hparts] at hmem
        rcases List.mem_cons.mp hmem with heq | hmem
        · exact hpart heq.symm
        · exact hpath.2 hmem

theorem hasDots_win32Share {rest : List Char} (hrest : NoParent win32Separator rest)
    (hpath : NoParent win32Separator path) (hsame : HasDots path ↔ HasDots rest) :
    HasDots (win32Share path rest) ↔ HasDots rest := by
  have hslash : '\\' ≠ '.' := by decide
  unfold win32Share
  dsimp only
  split
  · rw [hasDots_win32Rest hpath, hsame, or_iff_right not_hasDots_nil]
  · have hhost := hasDots_span rest
    have hshare :=
      hasDots_span ((rest.dropWhile fun ch => !win32Separator ch).dropWhile win32Separator)
    have hbehind := hrest.span.dropWhile.span
    rw [hasDots_dropWhile] at hshare
    generalize (rest.takeWhile fun ch => !win32Separator ch) = host at hhost ⊢
    generalize ((rest.dropWhile fun ch => !win32Separator ch).dropWhile win32Separator).takeWhile
      (fun ch => !win32Separator ch) = share
      at hshare ⊢
    generalize ((rest.dropWhile fun ch => !win32Separator ch).dropWhile win32Separator).dropWhile
      (fun ch => !win32Separator ch) = behind
      at hshare hbehind ⊢
    have hdevice : HasDots (['\\', '\\'] ++ host ++ ['\\'] ++ share) ↔
        HasDots host ∨ HasDots share := by
      rw [List.append_assoc _ ['\\'] share, List.singleton_append, hasDots_append_cons hslash,
        List.cons_append, List.singleton_append, hasDots_cons_of_ne hslash,
        hasDots_cons_of_ne hslash]
    rw [hhost, hshare, ← or_assoc, ← hdevice]
    split
    next hnil => rw [hnil, hasDots_concat hslash, or_iff_left not_hasDots_nil]
    · rw [hasDots_win32Rest hbehind]

/-- The normalized path has two dots exactly if the path has. -/
theorem hasDots_win32Normalize (hpath : NoParent win32Separator path) :
    HasDots (win32Normalize path) ↔ HasDots path := by
  unfold win32Normalize
  split
  · decide
  · refine iff_of_false ?_ not_hasDots_singleton
    split
    · exact not_hasDots_singleton
    · exact not_hasDots_singleton
  next first second rest =>
  by_cases hfirst : win32Separator first = true
  · have hne : first ≠ '.' := fun heq => absurd (heq ▸ hfirst) (by decide)
    rw [if_pos hfirst, hasDots_cons_of_ne hne]
    split
    next hsecond =>
      have hne' : second ≠ '.' := fun heq => absurd (heq ▸ hsecond) (by decide)
      rw [hasDots_cons_of_ne hne']
      refine hasDots_win32Share
        ((noParent_cons hsecond).mp ((noParent_cons hfirst).mp hpath)) hpath ?_
      rw [hasDots_cons_of_ne hne, hasDots_cons_of_ne hne']
    · rw [hasDots_win32Rest ((noParent_cons hfirst).mp hpath), or_iff_right not_hasDots_nil]
  rw [if_neg hfirst]
  by_cases hdrive : first.isAlpha ∧ second = ':'
  · obtain ⟨halpha, rfl⟩ := hdrive
    have hcolon : ∀ more, HasDots (first :: ':' :: more) ↔ HasDots more := by
      intro more
      have hsplit : HasDots ([first] ++ ':' :: more) ↔ HasDots [first] ∨ HasDots more :=
        hasDots_append_cons (by decide)
      exact hsplit.trans (or_iff_right not_hasDots_singleton)
    have hrelative : [first, ':'] = [] ∨ [first, ':'] = [first, ':'] := .inr rfl
    rw [if_pos ⟨halpha, rfl⟩, hcolon]
    split
    next third more =>
      split
      next hthird =>
        have hne : third ≠ '.' := fun heq => absurd (heq ▸ hthird) (by decide)
        have hmore : NoParent win32Separator ([first, ':'] ++ third :: more) := hpath
        rw [hasDots_win32Rest ((noParent_append_cons hthird).mp hmore).2, hasDots_cons_of_ne hne,
          hcolon, or_iff_right not_hasDots_nil]
      · exact hasDots_win32Rest_relative hrelative (hpath.behind_drive hfirst)
    · exact hasDots_win32Rest_relative hrelative (.inl noParent_nil)
  · have hnone : ([] : List Char) = [] ∨ [] = [first, ':'] := .inl rfl
    rw [if_neg hdrive, hasDots_win32Rest_relative hnone (.inl hpath)]

end

end NodePath
