-- SUMMARY: What accepted grants are by MySQL's rules, and the line that reaches too far.
import Mathlib.Data.List.TakeWhile
import Pluton.Pattern
import Pluton.RecoveryImport.Grants

/-!
# Accepted grants

An accepted line reads as the expressions take it apart: its privileges have no quotes, and its
object is one quoted name. A name that passes has a backslash in front of every underscore. The
guard as a whole is accepted as it is written, though its underscores are wildcards there.
-/
namespace Pluton.RecoveryImport

open Mysql

/-! ## What is claimed of a line -/

/-- A privilege by its words. -/
def named (privilege : String) : List Token := tokens privilege.toList

/-- What a line may grant on a database. -/
def Approved (allowedDatabases : List String) (purpose : Purpose) (privilege : List Token)
    (database : List Char) : Prop :=
  privilege = named "USAGE" ∨ privilege = named "SELECT" ∧
    database = (guardDatabase purpose).toList ∨
    String.ofList database ∈ allowedDatabases ∧ (privilege = named "ALL PRIVILEGES" ∨
      ∃ accepted ∈ acceptedPrivileges, privilege = named accepted)

/-- The line grants nothing but `USAGE`, `SELECT` on the guard, and accepted privileges on approved
databases: no role, no proxy, nothing global and no right to grant. -/
structure Sound (allowedDatabases : List String) (purpose : Purpose) (line : List Char) : Prop where
  grants : ∃ privileges object, readLine line = .grant privileges object
  global : ∀ privileges, readLine line = .grant privileges .global →
    ∀ privilege ∈ privileges, privilege = named "USAGE"
  databases : ∀ privilege database, Grants line privilege database →
    Approved allowedDatabases purpose privilege database
  option : ¬ GrantOption line

/-- A line from its parts, with the keywords as they are written. -/
def lineOf (first privileges on object to' tail : List Char) : List Char :=
  first ++ ' ' :: (privileges ++ ' ' :: (on ++ ' ' :: (object ++ ' ' :: (to' ++ ' ' :: tail))))

structure Keywords (first on to' : List Char) : Prop where
  first : first.map Char.toUpper = "GRANT".toList
  on : on.map Char.toUpper = "ON".toList
  to' : to'.map Char.toUpper = "TO".toList

/-- The line grants `SELECT` on the guard as a whole. -/
def OnWholeGuard (purpose : Purpose) (line : List Char) : Prop :=
  ∃ first on to' tail, Keywords first on to' ∧
    line = lineOf first "SELECT".toList on (quotedDatabase (guardDatabase purpose).toList) to' tail

/-! ## The expressions -/

section
variable {text rest line privileges object scope : List Char} {literal : String}

theorem behindLiteral_eq_some (h : behindLiteral literal text = some rest) :
    ∃ written, text = written ++ rest ∧ written.map Char.toUpper = literal.toList := by
  unfold behindLiteral at h
  dsimp only at h
  split at h
  next hsame => exact ⟨_, by rw [← Option.some.inj h, List.take_append_drop], hsame⟩
  · cases h

theorem lazyGroup_eq_some {β : Type} {next : List Char → Option β} {taken group : List Char}
    {found : β} (h : lazyGroup literal next taken text = some (group, found)) :
    ∃ more written behind, group = taken ++ more ∧
      text = more ++ (written ++ behind) ∧ written.map Char.toUpper = literal.toList ∧
      next behind = some found := by
  induction text generalizing taken with
  | nil => cases h
  | cons ch rest ih =>
      rw [lazyGroup] at h
      split at h
      next found' hfound =>
        obtain ⟨rfl, rfl⟩ := Prod.mk.inj (Option.some.inj h)
        split at hfound
        · cases hfound
        · obtain ⟨behind, hbehind, hnext⟩ := Option.bind_eq_some_iff.mp hfound
          obtain ⟨written, htext, hwritten⟩ := behindLiteral_eq_some hbehind
          exact ⟨[], written, behind, (List.append_nil _).symm, htext, hwritten, hnext⟩
      · split at h
        · cases h
        · obtain ⟨more, written, behind, hgroup, htext, hwritten, hnext⟩ := ih h
          exact ⟨ch :: more, written, behind, by rw [hgroup, List.append_assoc]; rfl,
            by rw [htext]; rfl, hwritten, hnext⟩

theorem keyword_spaced {written name : List Char} (h : written.map Char.toUpper = name ++ [' ']) :
    ∃ word, written = word ++ [' '] ∧ word.map Char.toUpper = name := by
  obtain ⟨word, last, rfl, hword, hlast⟩ := List.map_eq_append_iff.mp h
  obtain ⟨ch, rfl, hch⟩ := List.map_eq_singleton_iff.mp hlast
  exact ⟨word, by rw [eq_space_of_toUpper hch], hword⟩

theorem keyword_between {written name : List Char}
    (h : written.map Char.toUpper = ' ' :: (name ++ [' '])) :
    ∃ word, written = ' ' :: (word ++ [' ']) ∧ word.map Char.toUpper = name := by
  obtain ⟨space, more, rfl, hspace, hmore⟩ := List.map_eq_cons_iff.mp h
  obtain ⟨word, rfl, hword⟩ := keyword_spaced hmore
  exact ⟨word, by rw [eq_space_of_toUpper hspace], hword⟩

theorem grantMatch_eq_some (h : grantMatch line = some (privileges, object)) :
    ∃ first on to' tail, Keywords first on to' ∧
      line = lineOf first privileges on object to' tail := by
  obtain ⟨rest, hrest, hgroups⟩ := Option.bind_eq_some_iff.mp h
  obtain ⟨writtenGrant, rfl, hgrant⟩ := behindLiteral_eq_some hrest
  obtain ⟨more, writtenOn, behind, hprivileges, rfl, hwrittenOn, hobject⟩ :=
    lazyGroup_eq_some hgroups
  obtain ⟨⟨group, tail⟩, hgroup, hfound⟩ := Option.map_eq_some_iff.mp hobject
  obtain ⟨more', writtenTo, behind', hmore, rfl, hwrittenTo, -⟩ := lazyGroup_eq_some hgroup
  obtain ⟨first, rfl, hfirst⟩ : ∃ word, writtenGrant = word ++ [' '] ∧
      word.map Char.toUpper = "GRANT".toList := keyword_spaced hgrant
  obtain ⟨on, rfl, hon⟩ : ∃ word, writtenOn = ' ' :: (word ++ [' ']) ∧
      word.map Char.toUpper = "ON".toList := keyword_between hwrittenOn
  obtain ⟨to', rfl, hto⟩ : ∃ word, writtenTo = ' ' :: (word ++ [' ']) ∧
      word.map Char.toUpper = "TO".toList := keyword_between hwrittenTo
  refine ⟨first, on, to', behind', ⟨hfirst, hon, hto⟩, ?_⟩
  have hsame : group = object := hfound
  rw [hprivileges, ← hsame, hmore, lineOf]
  simp only [List.append_assoc, List.cons_append, List.nil_append]

/-! ## Names -/

theorem withoutEscapes_cons {ch : Char} (hone : ∀ more, ch = '\\' → rest = '_' :: more → False)
    (hmany : ∀ more, ch = '\\' → rest = '%' :: more → False) :
    withoutEscapes (ch :: rest) = ch :: withoutEscapes rest := by
  rw [withoutEscapes]
  · exact hone
  · exact hmany

theorem mem_withoutEscapes {ch : Char} (hch : ch ≠ '\\') (h : ch ∈ text) :
    ch ∈ withoutEscapes text := by
  induction text using withoutEscapes.induct with
  | case1 rest ih =>
      rw [withoutEscapes]
      rcases List.mem_cons.mp h with rfl | h
      · exact absurd rfl hch
      · exact (List.mem_cons.mp h).elim (fun heq => heq ▸ List.mem_cons_self) fun h =>
          List.mem_cons_of_mem _ (ih h)
  | case2 rest ih =>
      rw [withoutEscapes]
      rcases List.mem_cons.mp h with rfl | h
      · exact absurd rfl hch
      · exact (List.mem_cons.mp h).elim (fun heq => heq ▸ List.mem_cons_self) fun h =>
          List.mem_cons_of_mem _ (ih h)
  | case3 other rest hone hmany ih =>
      rw [withoutEscapes_cons hone hmany]
      exact (List.mem_cons.mp h).elim (fun heq => heq ▸ List.mem_cons_self) fun h =>
        List.mem_cons_of_mem _ (ih h)
  | case4 => exact absurd h List.not_mem_nil

/-- A name that passes stands for itself: a backslash can only be in front of an underscore, and
there is one in front of each. -/
theorem eq_of_matches {name : List Char}
    (hplain : ∀ ch ∈ withoutEscapes text, Pattern.dashed ch = true)
    (hwildcard : wildcard false text = false) (h : Matches text name) :
    name = withoutEscapes text := by
  induction text using withoutEscapes.induct generalizing name with
  | case1 rest ih =>
      rw [withoutEscapes, List.forall_mem_cons] at hplain
      obtain ⟨more, rfl, hmore⟩ := h.eq_cons_of_escaped
      rw [withoutEscapes, ih hplain.2 (by simpa [wildcard] using hwildcard) hmore]
  | case2 rest ih =>
      rw [withoutEscapes, List.forall_mem_cons] at hplain
      exact absurd hplain.1 (by decide)
  | case3 ch rest hone hmany ih =>
      rw [withoutEscapes_cons hone hmany, List.forall_mem_cons] at hplain
      rw [withoutEscapes_cons hone hmany]
      rw [wildcard, Bool.or_eq_false_iff, Bool.not_false, Bool.true_and, Bool.or_eq_false_iff,
        beq_eq_false_iff_ne, beq_eq_false_iff_ne]
        at hwildcard
      have hslash : ch ≠ '\\' := by
        rintro rfl
        exact absurd hplain.1 (by decide)
      rw [beq_false_of_ne hslash] at hwildcard
      obtain ⟨more, rfl, hmore⟩ := h.eq_cons_of_literal ⟨hslash, hwildcard.1⟩
      rw [ih hplain.2 hwildcard.2 hmore]
  | case4 =>
      cases h
      rfl

/-! ## Privileges -/

/-- Words that are accepted, one privilege or all of them. -/
def AcceptedWords (privileges : List Char) : Prop :=
  privileges = "ALL PRIVILEGES".toList ∨ ∀ privilege ∈ splitPrivileges privileges,
    String.ofList privilege ∈ acceptedPrivileges

/-- What the words of an accepted privilege are not. -/
def plainToken (token : Token) : Bool :=
  !keyword "ON" token && !keyword "TO" token && !keyword "PROXY" token

theorem accepted_plain : ∀ accepted ∈ "USAGE" :: "ALL PRIVILEGES" :: acceptedPrivileges,
    (∀ ch ∈ accepted.toList, quoteChar ch = false) ∧
    (∀ token ∈ named accepted, plainToken token = true) ∧ Token.mark ',' ∉ named accepted := by
  simp only [← List.forall_iff_forall_mem]
  decide +kernel

/-- What is read of a list of privileges. -/
structure ReadAs (privileges : List Char) (read : List (List Token)) : Prop where
  quotes : ∀ ch ∈ privileges, quoteChar ch = false
  plain : ∀ token ∈ tokens privileges, plainToken token = true
  parts : (tokens privileges).splitOn (.mark ',') = read

theorem readAs_single {accepted : String}
    (h : accepted ∈ "USAGE" :: "ALL PRIVILEGES" :: acceptedPrivileges) :
    ReadAs accepted.toList [named accepted] where
  quotes := (accepted_plain accepted h).1
  plain := (accepted_plain accepted h).2.1
  parts := by
    have hsplit : ([Token.mark ','].intercalate [named accepted]).splitOn (.mark ',') =
        [named accepted] :=
      List.splitOn_intercalate _ (fun part hpart =>
        List.mem_singleton.mp hpart ▸ (accepted_plain accepted h).2.2) (by simp)
    rw [List.intercalate_singleton] at hsplit
    exact hsplit

/-- The parts between commas, each behind some white space. -/
theorem splitPrivileges_parts (privileges : List Char) :
    ∃ parts, privileges = [','].intercalate parts ∧ parts ≠ [] ∧
    ∀ part ∈ parts, part ∈ splitPrivileges privileges ∨
      part.dropWhile Js.isWhitespace ∈ splitPrivileges privileges := by
  refine ⟨privileges.splitOn ',', (List.intercalate_splitOn ',').symm, List.splitOn_ne_nil _ _,
    fun part hpart => ?_⟩
  unfold splitPrivileges
  cases hparts : privileges.splitOn ',' with
  | nil => rw [hparts] at hpart; exact absurd hpart List.not_mem_nil
  | cons first rest =>
      rw [hparts] at hpart
      rcases List.mem_cons.mp hpart with rfl | hrest
      · exact .inl List.mem_cons_self
      · exact .inr (List.mem_cons_of_mem _ (List.mem_map_of_mem hrest))

theorem readAs_parts {privileges : List Char}
    (h : ∀ privilege ∈ splitPrivileges privileges, String.ofList privilege ∈ acceptedPrivileges) :
    ∃ read, ReadAs privileges read ∧ ∀ privilege ∈ read, ∃ accepted ∈ acceptedPrivileges,
      privilege = named accepted := by
  obtain ⟨parts, hprivileges, hne, hparts⟩ := splitPrivileges_parts privileges
  have hpart : ∀ part ∈ parts, (∀ ch ∈ part, quoteChar ch = false) ∧
      ∃ accepted ∈ acceptedPrivileges, tokens part = named accepted := by
    intro part hmem
    rcases hparts part hmem with hwords | hwords
    · have hplain :=
        accepted_plain _ (List.mem_cons_of_mem _ (List.mem_cons_of_mem _ (h part hwords)))
      rw [String.toList_ofList] at hplain
      exact ⟨hplain.1, _, h part hwords, by rw [named, String.toList_ofList]⟩
    · have hplain := accepted_plain _ (List.mem_cons_of_mem _ (List.mem_cons_of_mem _ (h _ hwords)))
      rw [String.toList_ofList] at hplain
      refine ⟨fun ch hch => ?_, _, h _ hwords, by
        rw [named, String.toList_ofList, tokens_dropWhile]⟩
      rw [← List.takeWhile_append_dropWhile (p := Js.isWhitespace) (l := part),
        List.mem_append] at hch
      rcases hch with hspace | hword
      · exact (blank_of_whitespace (List.mem_takeWhile_imp hspace)).2
      · exact hplain.1 ch hword
  have htokens : tokens privileges = [.mark ','].intercalate (parts.map tokens) := by
    rw [hprivileges, tokens_intercalate fun part hmem => (hpart part hmem).1]
  refine ⟨parts.map tokens, ⟨fun ch hch => ?_, fun token htoken => ?_, ?_⟩,
    fun privilege hprivilege => ?_⟩
  · rw [hprivileges] at hch
    rcases mem_intercalate hch with rfl | ⟨part, hmem, hin⟩
    · decide
    · exact (hpart part hmem).1 ch hin
  · rw [htokens] at htoken
    rcases mem_intercalate htoken with rfl | ⟨words, hwords, hin⟩
    · decide
    · obtain ⟨part, hmem, rfl⟩ := List.mem_map.mp hwords
      obtain ⟨accepted, haccepted, heq⟩ := (hpart part hmem).2
      exact (accepted_plain accepted
        (List.mem_cons_of_mem _ (List.mem_cons_of_mem _ haccepted))).2.1 token (heq ▸ hin)
  · rw [htokens]
    refine List.splitOn_intercalate _ (fun words hwords => ?_) (by simpa using hne)
    obtain ⟨part, hmem, rfl⟩ := List.mem_map.mp hwords
    obtain ⟨accepted, haccepted, heq⟩ := (hpart part hmem).2
    exact heq ▸
      (accepted_plain accepted (List.mem_cons_of_mem _ (List.mem_cons_of_mem _ haccepted))).2.2
  · obtain ⟨part, hmem, rfl⟩ := List.mem_map.mp hprivilege
    exact (hpart part hmem).2

/-! ## An accepted line -/

variable {first on to' tail database : List Char} {read : List (List Token)}
  {allowedDatabases : List String} {purpose : Purpose}

/-- A line whose object is read up to the space behind it. -/
theorem readLine_lineOf (hkeys : Keywords first on to') (hread : ReadAs privileges read)
    (hclosed : ∀ rest, tokens (object ++ ' ' :: rest) = tokens object ++ tokens rest)
    (hobject : ∀ token ∈ tokens object, keyword "TO" token = false) :
    readLine (lineOf first privileges on object to' tail) =
      .grant read (readObject (tokens object)) := by
  rw [← hread.parts]
  refine readLine_grant hkeys.first hkeys.on hkeys.to' hread.quotes
    (fun token hmem => ?_) hclosed hobject
  have hplain := hread.plain token hmem
  simp only [plainToken, Bool.and_eq_true, Bool.not_eq_true'] at hplain
  exact ⟨hplain.1.1, hplain.1.2, hplain.2⟩

theorem readLine_database (hkeys : Keywords first on to') (hread : ReadAs privileges read)
    (hdatabase : '\x60' ∉ database) :
    readLine (lineOf first privileges on (quotedDatabase database) to' tail) =
      .grant read (.database database) := by
  have htokens : ∀ rest, tokens ('\x60' :: (database ++ '\x60' :: '.' :: '*' :: rest)) =
      .quoted '\x60' database database :: .mark '.' :: .mark '*' :: tokens rest := fun rest =>
        tokens_database hdatabase
  have hobject : tokens (quotedDatabase database) =
      [.quoted '\x60' database database, .mark '.', .mark '*'] := htokens []
  rw [readLine_lineOf hkeys hread (fun rest => ?_) (fun token hmem => ?_), hobject]
  · rfl
  · rw [hobject, quotedDatabase, List.cons_append, List.append_assoc]
    exact (htokens (' ' :: rest)).trans (by rw [tokens_whitespace (by decide)]; rfl)
  · rw [hobject] at hmem
    simp only [List.mem_cons, List.not_mem_nil, or_false] at hmem
    rcases hmem with rfl | rfl | rfl <;> rfl

theorem readLine_guard (hkeys : Keywords first on to') (hread : ReadAs privileges read) :
    readLine (lineOf first privileges on
      (quotedTable (guardDatabase purpose) (guardTable purpose)) to' tail) =
      .grant read (.table (guardDatabase purpose).toList (guardTable purpose).toList) := by
  have hfree : '\x60' ∉ (guardDatabase purpose).toList ∧ '\x60' ∉ (guardTable purpose).toList := by
    cases purpose <;> decide
  generalize (guardDatabase purpose) = database at *
  generalize (guardTable purpose) = table at *
  have htokens : ∀ rest, rest.head? ≠ some '\x60' →
      tokens ('\x60' :: (database.toList ++ '\x60' :: '.' :: '\x60' ::
        (table.toList ++ '\x60' :: rest))) =
        .quoted '\x60' database.toList database.toList :: .mark '.' ::
          .quoted '\x60' table.toList table.toList :: tokens rest :=
    fun rest hrest => tokens_table hfree.1 hfree.2 hrest
  have hobject : tokens (quotedTable database table) =
      [.quoted '\x60' database.toList database.toList, .mark '.',
        .quoted '\x60' table.toList table.toList] := htokens [] (by simp)
  rw [readLine_lineOf hkeys hread (fun rest => ?_) (fun token hmem => ?_), hobject]
  · rfl
  · have hspaced := htokens (' ' :: rest) (by simp)
    have hspace : tokens (' ' :: rest) = tokens rest := tokens_whitespace (by decide)
    rw [hspace] at hspaced
    rw [hobject, quotedTable]
    simp only [List.cons_append, List.append_assoc, List.nil_append]
    exact hspaced
  · rw [hobject] at hmem
    simp only [List.mem_cons, List.not_mem_nil, or_false] at hmem
    rcases hmem with rfl | rfl | rfl <;> rfl

theorem readLine_global (hkeys : Keywords first on to') (hread : ReadAs privileges read) :
    readLine (lineOf first privileges on "*.*".toList to' tail) = .grant read .global := by
  rw [readLine_lineOf hkeys hread (fun rest => ?_) (by decide)]
  · rfl
  · exact tokens_append (List.forall_iff_forall_mem.mp (by decide))

theorem scopeOf_eq_some (h : scopeOf object = some scope) : object = quotedDatabase scope := by
  unfold scopeOf at h
  split at h
  next rest =>
    dsimp only at h
    split at h
    next hrest =>
      have hsplit := List.take_append_drop (rest.length - 3) rest
      rw [hrest.1, Option.some.inj h] at hsplit
      rw [← hsplit, quotedDatabase]
    · cases h
  · cases h

theorem checkGrant_cases (h : checkGrant allowedDatabases purpose privileges object = .ok ()) :
    (object = "*.*".toList ∧ privileges = "USAGE".toList) ∨
    (object = quotedTable (guardDatabase purpose) (guardTable purpose) ∧
      privileges = "SELECT".toList) ∨
    (object = quotedDatabase (guardDatabase purpose).toList ∧ privileges = "SELECT".toList) ∨
    ∃ scope, object = quotedDatabase scope ∧ wildcard false scope = false ∧
      String.ofList (withoutEscapes scope) ∈ allowedDatabases ∧
      AcceptedWords privileges := by
  unfold checkGrant at h
  split at h
  next husage => exact .inl husage
  · split at h
    next hguard =>
      rcases hguard with ⟨hobject | hobject, hselect⟩
      · exact .inr (.inl ⟨hobject, hselect⟩)
      · exact .inr (.inr (.inl ⟨hobject, hselect⟩))
    · split at h
      · cases h
      next scope hscope =>
        split at h
        · cases h
        next hname =>
          split at h
          · cases h
          next hwords =>
            rw [Bool.not_eq_true, Bool.or_eq_false_iff, Bool.not_eq_false',
              List.contains_iff_mem] at hname
            refine .inr (.inr (.inr ⟨scope, scopeOf_eq_some hscope, hname.1, hname.2, ?_⟩))
            rw [not_and_or, not_not, Bool.not_eq_true, List.any_eq_false] at hwords
            exact hwords.imp_right fun hall privilege hmem => by simpa using hall privilege hmem

theorem sound_of_reading {place : Object} (hline : readLine line = .grant read place)
    (hglobal : place = .global → ∀ privilege ∈ read, privilege = named "USAGE")
    (happroved : ∀ privilege ∈ read, ∀ database, place.Covers database →
      Approved allowedDatabases purpose privilege database)
    (hoption : ¬ withGrantOption line) : Sound allowedDatabases purpose line where
  grants := ⟨read, place, hline⟩
  global privileges hread := by
    obtain ⟨rfl, hplace⟩ := Line.grant.inj (hline.symm.trans hread)
    exact hglobal hplace
  databases := by
    rintro privilege database ⟨privileges, object, hread, hprivilege, hcovers⟩
    obtain ⟨rfl, rfl⟩ := Line.grant.inj (hline.symm.trans hread)
    exact happroved privilege hprivilege database hcovers
  option h := hoption h.infix

theorem readLine_scope (tail : List Char) (hkeys : Keywords first on to')
    (hwords : AcceptedWords privileges) (hscope : '\x60' ∉ scope) :
    ∃ read, readLine (lineOf first privileges on (quotedDatabase scope) to' tail) =
      .grant read (.database scope) ∧
      ∀ privilege ∈ read, privilege = named "ALL PRIVILEGES" ∨
        ∃ accepted ∈ acceptedPrivileges, privilege = named accepted := by
  rcases hwords with rfl | hwords
  · refine ⟨_, readLine_database hkeys (readAs_single (by decide)) hscope,
      fun privilege hprivilege => .inl ?_⟩
    exact List.mem_singleton.mp hprivilege
  · obtain ⟨read, hread, haccepted⟩ := readAs_parts hwords
    exact ⟨read, readLine_database hkeys hread hscope,
      fun privilege hprivilege => .inr (haccepted privilege hprivilege)⟩

theorem dashed_of_allowed
    (hnames : ∀ name ∈ allowedDatabases, Pattern.headed Pattern.word Pattern.dashed name = true)
    (hname : String.ofList database ∈ allowedDatabases) :
    ∀ ch ∈ database, Pattern.dashed ch = true := by
  have hall := Pattern.forall_of_headed (hnames _ hname) (P := fun ch => Pattern.dashed ch = true)
    (fun ch hword => by rw [Pattern.dashed, hword, Bool.true_or]) fun ch hch => hch
  rwa [String.toList_ofList] at hall

/-- An accepted line is sound, unless it grants `SELECT` on the guard as a whole. -/
theorem sound_of_accepted
    (hnames : ∀ name ∈ allowedDatabases, Pattern.headed Pattern.word Pattern.dashed name = true)
    (h : checkLine allowedDatabases purpose line = .ok ()) (hguard : ¬ OnWholeGuard purpose line) :
    Sound allowedDatabases purpose line := by
  unfold checkLine at h
  split at h
  · cases h
  next hoption =>
    split at h
    · cases h
    next privileges object hmatch =>
      obtain ⟨first, on, to', tail, hkeys, rfl⟩ := grantMatch_eq_some hmatch
      rcases checkGrant_cases h with
        ⟨rfl, rfl⟩ | ⟨rfl, rfl⟩ | ⟨rfl, rfl⟩ | ⟨scope, rfl, hwildcard, hname, hwords⟩
      · refine sound_of_reading (readLine_global hkeys (readAs_single (by decide)))
          (fun _ privilege hprivilege => ?_)
          (fun privilege hprivilege database _ => .inl ?_) hoption
        · exact List.mem_singleton.mp hprivilege
        · exact List.mem_singleton.mp hprivilege
      · refine sound_of_reading (readLine_guard hkeys (readAs_single (by decide))) nofun
          (fun privilege hprivilege database hcovers => ?_) hoption
        exact .inr (.inl ⟨List.mem_singleton.mp hprivilege, hcovers⟩)
      · exact absurd ⟨first, on, to', tail, hkeys, rfl⟩ hguard
      · have hdashed : ∀ ch ∈ withoutEscapes scope, Pattern.dashed ch = true := by
          have hall :=
            Pattern.forall_of_headed (hnames _ hname) (P := fun ch => Pattern.dashed ch = true)
            (fun ch hword => by rw [Pattern.dashed, hword, Bool.true_or]) fun ch hch => hch
          rwa [String.toList_ofList] at hall
        have hquote : '\x60' ∉ scope := fun hmem =>
          absurd (hdashed _ (mem_withoutEscapes (by decide) hmem)) (by decide)
        obtain ⟨read, hline, hread⟩ := readLine_scope tail hkeys hwords hquote
        refine sound_of_reading hline nofun (fun privilege hprivilege database hcovers =>
          .inr (.inr ⟨?_, hread privilege hprivilege⟩)) hoption
        rw [eq_of_matches hdashed hwildcard hcovers]
        exact hname

theorem matches_guard (purpose : Purpose) :
    ∃ database, Matches (guardDatabase purpose).toList database ∧
    database ≠ (guardDatabase purpose).toList ∧ '$' ∈ database := by
  have hmatches : ∀ back : List Char, (∀ ch ∈ back, ch ≠ '\\' ∧ ch ≠ '%') →
      Matches ("pluton".toList ++ '_' :: (back ++ [])) ("pluton".toList ++ '$' :: (back ++ [])) :=
        fun back hback =>
          .append (List.forall_iff_forall_mem.mp (by decide)) (.one (.append hback .nil))
  cases purpose with
  | recovery =>
      exact ⟨"pluton$recovery_guard".toList,
        hmatches "recovery_guard".toList (List.forall_iff_forall_mem.mp (by decide)),
        by decide, by decide⟩
  | persistent =>
      exact ⟨"pluton$restore_guard".toList,
        hmatches "restore_guard".toList (List.forall_iff_forall_mem.mp (by decide)),
        by decide, by decide⟩

theorem not_sound_of_guard
    (hnames : ∀ name ∈ allowedDatabases, Pattern.headed Pattern.word Pattern.dashed name = true)
    (h : OnWholeGuard purpose line) : ¬ Sound allowedDatabases purpose line := by
  intro hsound
  obtain ⟨first, on, to', tail, hkeys, rfl⟩ := h
  obtain ⟨database, hmatches, hne, hdollar⟩ := matches_guard purpose
  have hline : readLine (lineOf first "SELECT".toList on
      (quotedDatabase (guardDatabase purpose).toList) to' tail) =
      .grant [named "SELECT"] (.database (guardDatabase purpose).toList) :=
    readLine_database hkeys (readAs_single (by decide)) (by cases purpose <;> decide)
  rcases hsound.databases (named "SELECT") database
    ⟨_, _, hline, List.mem_singleton_self _, hmatches⟩ with husage | ⟨-, hguard⟩ | ⟨hname, -⟩
  · exact absurd husage (by decide)
  · exact hne hguard
  · exact absurd (dashed_of_allowed hnames hname '$' hdollar) (by decide)

/-- Where the inspection accepts, every line is sound exactly if none grants `SELECT` on the
guard as a whole: its name is a pattern there, which other databases match. -/
theorem assertRecoveryMysqlGrants_exact {output : String}
    (hnames : ∀ name ∈ allowedDatabases, Pattern.headed Pattern.word Pattern.dashed name = true)
    (haccepted : assertRecoveryMysqlGrants output allowedDatabases purpose = .ok ()) :
    (∀ line ∈ linesOf output, Sound allowedDatabases purpose line) ↔
    ∀ line ∈ linesOf output, ¬ OnWholeGuard purpose line := by
  constructor
  · intro hsound line hline hguard
    exact not_sound_of_guard hnames hguard (hsound line hline)
  · intro hguard line hline
    exact sound_of_accepted hnames (Except.forM_eq_ok.mp haccepted line hline) (hguard line hline)

end

/-- What an account of one database without a guard is granted. -/
def sampleGrants : String :=
  "GRANT USAGE ON *.* TO x\nGRANT ALL PRIVILEGES ON \x60a\\_b\x60.* TO x\n"

theorem assertRecoveryMysqlGrants_exact_sample :
    assertRecoveryMysqlGrants sampleGrants ["a_b"] .recovery = .ok () ∧
    ((∀ line ∈ linesOf sampleGrants, Sound ["a_b"] .recovery line) ↔
      ∀ line ∈ linesOf sampleGrants, ¬ OnWholeGuard .recovery line) := by
  have haccepted : assertRecoveryMysqlGrants sampleGrants ["a_b"] .recovery = .ok () := by
    decide +kernel
  exact ⟨haccepted, assertRecoveryMysqlGrants_exact (by decide) haccepted⟩

/-- `SELECT` on the guard as a whole is accepted, and is a right on
databases that are not the guard. -/
theorem whole_guard_reaches_others :
    ¬ ∀ output allowedDatabases purpose,
      (∀ name ∈ allowedDatabases, Pattern.headed Pattern.word Pattern.dashed name = true) →
      assertRecoveryMysqlGrants output allowedDatabases purpose = .ok () →
      ∀ line ∈ linesOf output, Sound allowedDatabases purpose line := by
  intro h
  have hsound :=
    h "GRANT SELECT ON \x60pluton_recovery_guard\x60.* TO x" [] .recovery (by decide) (by
      decide +kernel)
    "GRANT SELECT ON \x60pluton_recovery_guard\x60.* TO x".toList (by decide +kernel)
  exact not_sound_of_guard (by decide) ⟨"GRANT".toList, "ON".toList, "TO".toList, ['x'],
    ⟨by decide, by decide, by decide⟩, by decide +kernel⟩ hsound

end Pluton.RecoveryImport
