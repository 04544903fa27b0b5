-- SUMMARY: The lines of `SHOW GRANTS` as MySQL reads them, and what a line grants where.
import Mathlib.Data.List.Basic
import Mathlib.Data.List.Infix
import Pluton.Js

/-!
# Lines of `SHOW GRANTS`

A line is read token by token. A quoted identifier ends at a backtick that is not doubled, so a
word inside it is none of the line's. The reader takes any text: what it cannot place is kept as
such.
-/
namespace Mysql

/-! ## Tokens -/

inductive Token where
  | word (text : List Char)
  /-- `raw` is what is written between the delimiters, `text` what it stands for. -/
  | quoted (delimiter : Char) (raw text : List Char)
  /-- A quoted text without an end. -/
  | unended (delimiter : Char) (raw : List Char)
  | mark (ch : Char)
  deriving DecidableEq

/-- Letters of an identifier without quotes. White space is none, whatever its code. -/
def wordChar (ch : Char) : Bool :=
  ch.isAlphanum || ch == '_' || ch == '$' || (decide (0x80 ≤ ch.toNat) && !Js.isWhitespace ch)

def quoteChar (ch : Char) : Bool := ch == '\x60' || ch == '\'' || ch == '"'

/-- Where the reader stands. -/
inductive Mode where
  | plain (word : List Char)
  | quoted (delimiter : Char) (raw text : List Char)
  /-- Behind a backslash in a quoted string. -/
  | escaped (delimiter : Char) (raw text : List Char)
  /-- Behind a delimiter, which can be doubled. -/
  | closing (delimiter : Char) (raw text : List Char)

def flush (word : List Char) : List Token := if word = [] then [] else [.word word]

/-- A character outside of quotes. -/
def plainStep (word : List Char) (ch : Char) : List Token × Mode :=
  if wordChar ch then ([], .plain (word ++ [ch]))
  else if quoteChar ch then (flush word, .quoted ch [] [])
  else (flush word ++ [.mark ch], .plain [])

def lexStep : Mode → Char → List Token × Mode
  | .plain word, ch => plainStep word ch
  | .quoted delimiter raw text, ch =>
    if ch = delimiter then ([], .closing delimiter raw text)
    else if ch = '\\' ∧ delimiter ≠ '\x60' then ([], .escaped delimiter raw text)
    else ([], .quoted delimiter (raw ++ [ch]) (text ++ [ch]))
  | .escaped delimiter raw text, ch => ([], .quoted delimiter (raw ++ ['\\', ch]) (text ++ [ch]))
  | .closing delimiter raw text, ch =>
    if ch = delimiter then
      ([], .quoted delimiter (raw ++ [delimiter, delimiter]) (text ++ [delimiter]))
    else (.quoted delimiter raw text :: (plainStep [] ch).1, (plainStep [] ch).2)

def lexEnd : Mode → List Token
  | .plain word => flush word
  | .quoted delimiter raw _ => [.unended delimiter raw]
  | .escaped delimiter raw _ => [.unended delimiter (raw ++ ['\\'])]
  | .closing delimiter raw text => [.quoted delimiter raw text]

def lexFrom : Mode → List Char → List Token
  | mode, [] => lexEnd mode
  | mode, ch :: rest => (lexStep mode ch).1 ++ lexFrom (lexStep mode ch).2 rest

def lex (text : List Char) : List Token := lexFrom (.plain []) text

/-! ## Lines -/

def Token.blank : Token → Bool
  | .mark ch => Js.isWhitespace ch
  | _ => false

/-- The tokens of a text without the white space between them. -/
def tokens (text : List Char) : List Token := (lex text).filter fun token => !token.blank

/-- A word whatever its case. -/
def keyword (name : String) : Token → Bool
  | .word text => text.map Char.toUpper == name.toList
  | _ => false

inductive Object where
  | global
  /-- Every database whose name matches. -/
  | database (pattern : List Char)
  | table (database table : List Char)
  | other

def identifier : Token → Option (List Char)
  | .word text => some text
  | .quoted delimiter _ text => if delimiter = '\x60' then some text else none
  | _ => none

def readObject : List Token → Object
  | [first, .mark '.', last] =>
    match identifier first, identifier last with
    | some database, some table => .table database table
    | some database, none => if last = .mark '*' then .database database else .other
    | none, _ => if first = .mark '*' ∧ last = .mark '*' then .global else .other
  | _ => .other

inductive Line where
  /-- A role to an account. -/
  | role
  | proxy
  /-- Each privilege is the list of its words. -/
  | grant (privileges : List (List Token)) (object : Object)
  | other

def beforeAccount (token : Token) : Bool := !keyword "TO" token

def beforeObject (token : Token) : Bool := !keyword "ON" token && beforeAccount token

def readBehindGrant (rest : List Token) : Line :=
  let privileges := (rest.takeWhile beforeObject).splitOn (.mark ',')
  match rest.dropWhile beforeObject with
  | next :: behind =>
    if keyword "ON" next then
      if privileges.any (·.any (keyword "PROXY")) then .proxy
      else .grant privileges (readObject (behind.takeWhile beforeAccount))
    else .role
  | [] => .other

def readLine (line : List Char) : Line :=
  match tokens line with
  | first :: rest => if keyword "GRANT" first then readBehindGrant rest else .other
  | [] => .other

/-- The clause as the server prints it. -/
def GrantOption (line : List Char) : Prop :=
  ∃ first second third, keyword "WITH" first ∧ keyword "GRANT" second ∧ keyword "OPTION" third ∧
  [first, .mark ' ', second, .mark ' ', third] <:+: lex line

/-! ## Databases -/

/-- The names that a pattern stands for. Behind a backslash a character stands for itself. -/
inductive Matches : List Char → List Char → Prop where
  | nil : Matches [] []
  | escaped {ch : Char} {pattern name : List Char} :
      Matches pattern name → Matches ('\\' :: ch :: pattern) (ch :: name)
  | one {ch : Char} {pattern name : List Char} :
      Matches pattern name → Matches ('_' :: pattern) (ch :: name)
  | none {pattern name : List Char} : Matches pattern name → Matches ('%' :: pattern) name
  | more {ch : Char} {pattern name : List Char} :
      Matches ('%' :: pattern) name → Matches ('%' :: pattern) (ch :: name)
  | literal {ch : Char} {pattern name : List Char} (hplain : ch ≠ '\\' ∧ ch ≠ '_' ∧ ch ≠ '%') :
      Matches pattern name →
      Matches (ch :: pattern) (ch :: name)
  | backslash : Matches ['\\'] ['\\']

/-- The databases of an object. What is none of the kinds could be on any. -/
def Object.Covers : Object → List Char → Prop
  | .global, _ => True
  | .database pattern, name => Matches pattern name
  | .table held _, name => name = held
  | .other, _ => True

/-- The line grants the privilege on the database, or on something in it. -/
def Grants (line : List Char) (privilege : List Token) (database : List Char) : Prop :=
  ∃ privileges object, readLine line = .grant privileges object ∧ privilege ∈ privileges ∧
    object.Covers database

/-! ## What is written is kept -/

def Token.raw : Token → List Char
  | .word text => text
  | .quoted delimiter raw _ => delimiter :: raw ++ [delimiter]
  | .unended delimiter raw => delimiter :: raw
  | .mark ch => [ch]

/-- What the reader has taken and not given out. -/
def Mode.raw : Mode → List Char
  | .plain word => word
  | .quoted delimiter raw _ => delimiter :: raw
  | .escaped delimiter raw _ => delimiter :: raw ++ ['\\']
  | .closing delimiter raw _ => delimiter :: raw ++ [delimiter]

section
variable {word text rest body : List Char} {ch : Char} {mode : Mode}

theorem raw_flush : (flush word).flatMap Token.raw = word := by
  unfold flush
  split
  next h => rw [h]; rfl
  · simp [Token.raw]

theorem raw_plainStep :
    (plainStep word ch).1.flatMap Token.raw ++ (plainStep word ch).2.raw = word ++ [ch] := by
  unfold plainStep
  split
  · rfl
  · split
    · rw [raw_flush]
      rfl
    · rw [List.flatMap_append, raw_flush]
      simp [Token.raw, Mode.raw]

theorem raw_lexStep :
    (lexStep mode ch).1.flatMap Token.raw ++ (lexStep mode ch).2.raw = mode.raw ++ [ch] := by
  cases mode with
  | plain word => exact raw_plainStep
  | quoted delimiter raw text =>
      unfold lexStep
      dsimp only
      split
      next h => simp [Mode.raw, h]
      · split
        next h => simp [Mode.raw, h.1]
        · simp [Mode.raw]
  | escaped delimiter raw text => simp [lexStep, Mode.raw]
  | closing delimiter raw text =>
      unfold lexStep
      dsimp only
      split
      next h => simp [Mode.raw, h]
      · rw [List.flatMap_cons, List.append_assoc, raw_plainStep]
        rfl

theorem raw_lexEnd : (lexEnd mode).flatMap Token.raw = mode.raw := by
  cases mode with
  | plain word => exact raw_flush
  | quoted delimiter raw text => simp [lexEnd, Token.raw, Mode.raw]
  | escaped delimiter raw text => simp [lexEnd, Token.raw, Mode.raw]
  | closing delimiter raw text => simp [lexEnd, Token.raw, Mode.raw]

theorem raw_lexFrom (mode : Mode) (text : List Char) :
    (lexFrom mode text).flatMap Token.raw = mode.raw ++ text := by
  induction text generalizing mode with
  | nil => rw [lexFrom, raw_lexEnd, List.append_nil]
  | cons ch rest ih =>
      rw [lexFrom, List.flatMap_append, ih, ← List.append_assoc, raw_lexStep, List.append_assoc]
      rfl

theorem raw_lex (text : List Char) : (lex text).flatMap Token.raw = text := raw_lexFrom _ _

/-! ## Tokens of parts -/

theorem lexFrom_plain_of_not_word (hch : wordChar ch = false) :
    lexFrom (.plain word) (ch :: rest) = flush word ++ lex (ch :: rest) := by
  unfold lex
  rw [lexFrom, lexFrom]
  simp only [lexStep, plainStep, hch, Bool.false_eq_true, if_false]
  split
  · rfl
  · rw [List.append_assoc]
    rfl

/-- In front of a character that ends a word, a text without quotes is read for itself. -/
theorem lexFrom_append (htext : ∀ ch ∈ text, quoteChar ch = false) (hch : wordChar ch = false) :
    lexFrom (.plain word) (text ++ ch :: rest) =
      lexFrom (.plain word) text ++ lex (ch :: rest) := by
  induction text generalizing word with
  | nil => exact lexFrom_plain_of_not_word hch
  | cons first text ih =>
      rw [List.forall_mem_cons] at htext
      rw [List.cons_append, lexFrom, lexFrom, List.append_assoc]
      refine congrArg _ ?_
      simp only [lexStep, plainStep, htext.1, Bool.false_eq_true, if_false]
      split
      · exact ih htext.2
      · exact ih htext.2

theorem lex_append (htext : ∀ ch ∈ text, quoteChar ch = false) (hch : wordChar ch = false) :
    lex (text ++ ch :: rest) = lex text ++ lex (ch :: rest) := lexFrom_append htext hch

theorem lex_mark (hch : wordChar ch = false) (hquote : quoteChar ch = false) :
    lex (ch :: rest) = .mark ch :: lex rest := by
  unfold lex
  rw [lexFrom]
  simp only [lexStep, plainStep, hch, hquote, Bool.false_eq_true, if_false]
  rfl

theorem lexFrom_word (hword : ∀ ch ∈ text, wordChar ch = true) :
    lexFrom (.plain word) text = flush (word ++ text) := by
  induction text generalizing word with
  | nil => rw [List.append_nil]; rfl
  | cons ch text ih =>
      rw [List.forall_mem_cons] at hword
      rw [lexFrom]
      simp only [lexStep, plainStep, hword.1, if_true]
      rw [List.nil_append, ih hword.2, List.append_assoc, List.singleton_append]

theorem lex_word (hword : ∀ ch ∈ text, wordChar ch = true) (hne : text ≠ []) :
    lex text = [.word text] := by
  unfold lex
  rw [lexFrom_word hword, List.nil_append, flush, if_neg hne]

theorem lexFrom_backtick {raw held : List Char} (hbody : '\x60' ∉ body) :
    lexFrom (.quoted '\x60' raw held) (body ++ '\x60' :: rest) =
      lexFrom (.closing '\x60' (raw ++ body) (held ++ body)) rest := by
  induction body generalizing raw held with
  | nil =>
      rw [List.nil_append, List.append_nil, List.append_nil, lexFrom]
      rfl
  | cons ch body ih =>
      rw [List.mem_cons, not_or] at hbody
      rw [List.cons_append, lexFrom]
      simp only [lexStep, if_neg (Ne.symm hbody.1), ne_eq, not_true_eq_false, and_false, if_false]
      rw [List.nil_append, ih hbody.2, List.append_assoc, List.append_assoc]
      rfl

/-- A quoted identifier without backticks in it, in front of anything else. -/
theorem lex_backtick (hbody : '\x60' ∉ body) (hrest : rest.head? ≠ some '\x60') :
    lex ('\x60' :: (body ++ '\x60' :: rest)) = .quoted '\x60' body body :: lex rest := by
  have hopen : lex ('\x60' :: (body ++ '\x60' :: rest)) =
      lexFrom (.quoted '\x60' [] []) (body ++ '\x60' :: rest) := by
    unfold lex
    rw [lexFrom]
    rfl
  rw [hopen, lexFrom_backtick hbody]
  cases rest with
  | nil => rfl
  | cons ch rest =>
      have hch : ch ≠ '\x60' := fun heq => hrest (congrArg some heq)
      rw [lexFrom]
      simp only [lexStep, if_neg hch, List.nil_append, List.cons_append]
      unfold lex
      rw [lexFrom]
      rfl

theorem toNat_of_whitespace (h : Js.isWhitespace ch = true) : ch.toNat ≤ 32 ∨ 160 ≤ ch.toNat := by
  simp only [Js.isWhitespace, Bool.or_eq_true, Bool.and_eq_true, decide_eq_true_eq,
    List.contains_iff_mem, List.mem_cons, List.not_mem_nil, or_false] at h
  omega

theorem toNat_of_alphanum (h : ch.isAlphanum = true) : 48 ≤ ch.toNat ∧ ch.toNat ≤ 122 := by
  simp only [Char.isAlphanum] at h
  delta Char.isAlpha at h
  delta Char.isUpper Char.isLower at h
  simp only [Char.isDigit, Bool.or_eq_true, Bool.and_eq_true, decide_eq_true_eq] at h
  rcases h with (⟨hlow, hhigh⟩ | ⟨hlow, hhigh⟩) | ⟨hlow, hhigh⟩
  all_goals
    have hmin := UInt32.le_iff_toNat_le.mp hlow
    have hmax := UInt32.le_iff_toNat_le.mp hhigh
    simp at hmin hmax
    omega

theorem blank_of_whitespace (h : Js.isWhitespace ch = true) :
    wordChar ch = false ∧ quoteChar ch = false := by
  have hspace := toNat_of_whitespace h
  have hother : ∀ other : Char, 32 < other.toNat → other.toNat < 160 → ch ≠ other := by
    rintro other hmin hmax rfl
    omega
  have hletter : ch.isAlphanum = false := Bool.eq_false_iff.mpr fun halpha => by
    have hrange := toNat_of_alphanum halpha
    omega
  simp only [wordChar, quoteChar, hletter, h, Bool.or_eq_false_iff, beq_eq_false_iff_ne]
  exact ⟨⟨⟨⟨trivial, hother _ (by decide) (by decide)⟩, hother _ (by decide) (by decide)⟩,
    Bool.and_false _⟩,
    ⟨hother _ (by decide) (by decide), hother _ (by decide) (by decide)⟩,
    hother _ (by decide) (by decide)⟩

/-- The upper case of a character is the character, or that of a letter. -/
theorem toUpper_cases (ch : Char) :
    ch.toUpper = ch ∨ ch.isLower = true ∧ ch.toUpper.isUpper = true := by
  by_cases hsame : ch.toUpper = ch
  · exact .inl hsame
  unfold Char.toUpper at hsame ⊢
  split at hsame
  next hlower =>
    refine .inr ⟨by delta Char.isLower; simpa using hlower, ?_⟩
    have hmin := UInt32.le_iff_toNat_le.mp hlower.1
    have hmax := UInt32.le_iff_toNat_le.mp hlower.2
    simp at hmin hmax
    rw [dif_pos hlower]
    delta Char.isUpper
    simp only [decide_eq_true_eq]
    constructor
    all_goals
      apply UInt32.le_iff_toNat_le.mpr
      simp
      omega
  · exact absurd rfl hsame

theorem isAlpha_of_toUpper (h : ch.toUpper.isAlpha = true) : ch.isAlpha = true := by
  rcases toUpper_cases ch with hsame | ⟨hlower, -⟩
  · rwa [hsame] at h
  · delta Char.isAlpha
    rw [hlower, Bool.or_true]

theorem eq_space_of_toUpper (h : ch.toUpper = ' ') : ch = ' ' := by
  rcases toUpper_cases ch with hsame | ⟨-, hupper⟩
  · rw [← hsame, h]
  · rw [h] at hupper
    exact absurd hupper (by decide)

theorem tokens_append (htext : ∀ ch ∈ text, quoteChar ch = false) :
    tokens (text ++ ' ' :: rest) = tokens text ++ tokens rest := by
  have hspace : wordChar ' ' = false := by decide
  unfold tokens
  rw [lex_append htext hspace, lex_mark hspace (by decide), List.filter_append,
    List.filter_cons_of_neg (by decide)]

theorem tokens_whitespace (h : Js.isWhitespace ch = true) : tokens (ch :: rest) = tokens rest := by
  obtain ⟨hword, hquote⟩ := blank_of_whitespace h
  unfold tokens
  rw [lex_mark hword hquote, List.filter_cons_of_neg (by simp [Token.blank, h])]

theorem tokens_dropWhile (text : List Char) :
    tokens (text.dropWhile Js.isWhitespace) = tokens text := by
  induction text with
  | nil => rfl
  | cons ch text ih =>
      by_cases hch : Js.isWhitespace ch = true
      · rw [List.dropWhile_cons_of_pos hch, tokens_whitespace hch, ih]
      · rw [List.dropWhile_cons_of_neg hch]

theorem tokens_intercalate {parts : List (List Char)}
    (hparts : ∀ part ∈ parts, ∀ ch ∈ part, quoteChar ch = false) :
    tokens ([','].intercalate parts) = [.mark ','].intercalate (parts.map tokens) := by
  induction parts with
  | nil => rfl
  | cons part parts ih =>
      rw [List.forall_mem_cons] at hparts
      cases parts with
      | nil => rw [List.intercalate_singleton, List.map_singleton, List.intercalate_singleton]
      | cons next parts =>
          have hcomma : wordChar ',' = false := by decide
          have hrest := ih hparts.2
          unfold tokens at hrest ⊢
          rw [List.map_cons, List.map_cons, List.intercalate_cons_cons, List.intercalate_cons_cons,
            List.append_assoc, List.append_assoc, List.singleton_append, List.singleton_append,
            lex_append hparts.1 hcomma, lex_mark hcomma (by decide), List.filter_append,
            List.filter_cons_of_pos (by decide), hrest]
          rfl

theorem mem_intercalate {α : Type} {a sep : α} {parts : List (List α)}
    (h : a ∈ [sep].intercalate parts) : a = sep ∨ ∃ part ∈ parts, a ∈ part := by
  induction parts with
  | nil => exact absurd h List.not_mem_nil
  | cons part parts ih =>
      cases parts with
      | nil =>
          rw [List.intercalate_singleton] at h
          exact .inr ⟨part, List.mem_singleton_self _, h⟩
      | cons next parts =>
          rw [List.intercalate_cons_cons, List.append_assoc, List.mem_append] at h
          rcases h with hpart | h
          · exact .inr ⟨part, List.mem_cons_self, hpart⟩
          · rcases List.mem_cons.mp h with hsep | hrest
            · exact .inl hsep
            · exact (ih hrest).imp_right fun ⟨other, hother, hmem⟩ =>
                ⟨other, List.mem_cons_of_mem _ hother, hmem⟩

theorem mem_intercalate_of_mem {α : Type} {a sep : α} {part : List α} {parts : List (List α)}
    (hpart : part ∈ parts) (h : a ∈ part) :
    a ∈ [sep].intercalate parts := by
  induction parts with
  | nil => exact absurd hpart List.not_mem_nil
  | cons first parts ih =>
      cases parts with
      | nil =>
          rw [List.intercalate_singleton, ← List.mem_singleton.mp hpart]
          exact h
      | cons next parts =>
          rw [List.intercalate_cons_cons, List.append_assoc, List.mem_append]
          rcases List.mem_cons.mp hpart with rfl | hrest
          · exact .inl h
          · exact .inr (List.mem_cons_of_mem _ (ih hrest))

/-! ## A line by its parts -/

theorem tokens_keyword {name : String} (hname : ∀ ch ∈ name.toList, ch.isAlpha = true)
    (hne : name.toList ≠ []) (hword : word.map Char.toUpper = name.toList) :
    tokens (word ++ ' ' :: rest) = .word word :: tokens rest := by
  have halpha : ∀ ch ∈ word, wordChar ch = true := by
    intro ch hch
    have hupper := hname ch.toUpper (hword ▸ List.mem_map_of_mem hch)
    simp only [wordChar, Char.isAlphanum, isAlpha_of_toUpper hupper, Bool.true_or]
  have hquote : ∀ ch ∈ word, quoteChar ch = false := by
    intro ch hch
    have hplain := halpha ch hch
    cases hcase : quoteChar ch with
    | false => rfl
    | true =>
        simp only [quoteChar, Bool.or_eq_true, beq_iff_eq] at hcase
        rcases hcase with (rfl | rfl) | rfl <;> exact absurd hplain (by decide)
  have hsome : word ≠ [] := fun hnil => hne (by rw [← hword, hnil, List.map_nil])
  rw [tokens_append hquote]
  unfold tokens
  rw [lex_word halpha hsome]
  rfl

theorem keyword_word {name : String} :
    keyword name (.word word) = true ↔ word.map Char.toUpper = name.toList := beq_iff_eq

/-- A line that grants privileges, by its parts. The keywords are in any case. -/
theorem readLine_grant {first on to' privileges object tail : List Char}
    (hfirst : first.map Char.toUpper = "GRANT".toList) (hon : on.map Char.toUpper = "ON".toList)
    (hto : to'.map Char.toUpper = "TO".toList)
    (hprivileges : ∀ ch ∈ privileges, quoteChar ch = false)
    (hplain : ∀ token ∈ tokens privileges, keyword "ON" token = false ∧ keyword "TO" token = false ∧
      keyword "PROXY" token = false)
    (hclosed : ∀ rest, tokens (object ++ ' ' :: rest) = tokens object ++ tokens rest)
    (hobject : ∀ token ∈ tokens object, keyword "TO" token = false) :
    readLine (first ++ ' ' :: (privileges ++
      ' ' :: (on ++ ' ' :: (object ++ ' ' :: (to' ++ ' ' :: tail))))) =
      .grant ((tokens privileges).splitOn (.mark ',')) (readObject (tokens object)) := by
  have hnext : keyword "ON" (.word on) = true := keyword_word.mpr hon
  have hend : keyword "TO" (.word to') = true := keyword_word.mpr hto
  have htokens : tokens (first ++
      ' ' :: (privileges ++ ' ' :: (on ++ ' ' :: (object ++ ' ' :: (to' ++ ' ' :: tail))))) =
      .word first :: (tokens privileges ++ .word on ::
        (tokens object ++ .word to' :: tokens tail)) := by
    have hgrant : ∀ ch ∈ "GRANT".toList, ch.isAlpha = true :=
      List.forall_iff_forall_mem.mp (by decide)
    have hobject : ∀ ch ∈ "ON".toList, ch.isAlpha = true :=
      List.forall_iff_forall_mem.mp (by decide)
    have haccount : ∀ ch ∈ "TO".toList, ch.isAlpha = true :=
      List.forall_iff_forall_mem.mp (by decide)
    rw [tokens_keyword hgrant (by decide) hfirst, tokens_append hprivileges,
      tokens_keyword hobject (by decide) hon, hclosed, tokens_keyword haccount (by decide) hto]
  -- up to ON stand the privileges, up to TO the object
  have htake : ∀ token ∈ tokens privileges, beforeObject token = true := by
    intro token hmem
    rw [beforeObject, beforeAccount, (hplain token hmem).1, (hplain token hmem).2.1]
    rfl
  have hstop : ¬ beforeObject (.word on) = true := by
    rw [beforeObject, hnext]
    exact Bool.false_ne_true
  have hpast : ∀ token ∈ tokens object, beforeAccount token = true := by
    intro token hmem
    rw [beforeAccount, hobject token hmem]
    rfl
  have hstop' : ¬ beforeAccount (.word to') = true := by
    rw [beforeAccount, hend]
    exact Bool.false_ne_true
  have hproxy :
      ((tokens privileges).splitOn (.mark ',')).any (·.any (keyword "PROXY")) = false := by
    rw [List.any_eq_false]
    intro privilege hprivilege
    rw [Bool.not_eq_true, List.any_eq_false]
    intro token htoken
    rw [Bool.not_eq_true]
    have hmem : token ∈ [Token.mark ','].intercalate ((tokens privileges).splitOn (.mark ',')) :=
      mem_intercalate_of_mem hprivilege htoken
    rw [List.intercalate_splitOn] at hmem
    exact (hplain token hmem).2.2
  unfold readLine
  rw [htokens]
  dsimp only
  rw [if_pos (keyword_word.mpr hfirst)]
  unfold readBehindGrant
  rw [List.takeWhile_append_of_pos htake, List.takeWhile_cons_of_neg hstop, List.append_nil,
    List.dropWhile_append_of_pos htake, List.dropWhile_cons_of_neg hstop]
  dsimp only
  rw [if_pos hnext, hproxy, if_neg Bool.false_ne_true, List.takeWhile_append_of_pos hpast,
    List.takeWhile_cons_of_neg hstop', List.append_nil]

theorem tokens_mark (hword : wordChar ch = false) (hquote : quoteChar ch = false)
    (hblank : Js.isWhitespace ch = false) :
    tokens (ch :: rest) = .mark ch :: tokens rest := by
  unfold tokens
  rw [lex_mark hword hquote, List.filter_cons_of_pos (by rw [Token.blank, hblank]; rfl)]

theorem tokens_backtick (hbody : '\x60' ∉ body) (hrest : rest.head? ≠ some '\x60') :
    tokens ('\x60' :: (body ++ '\x60' :: rest)) = .quoted '\x60' body body :: tokens rest := by
  unfold tokens
  rw [lex_backtick hbody hrest, List.filter_cons_of_pos (by rfl)]

theorem tokens_database (hbody : '\x60' ∉ body) :
    tokens ('\x60' :: (body ++ '\x60' :: '.' :: '*' :: rest)) =
      .quoted '\x60' body body :: .mark '.' :: .mark '*' :: tokens rest := by
  rw [tokens_backtick hbody (by simp), tokens_mark (by decide) (by decide) (by decide),
    tokens_mark (by decide) (by decide) (by decide)]

theorem tokens_table {table : List Char} (hbody : '\x60' ∉ body) (htable : '\x60' ∉ table)
    (hrest : rest.head? ≠ some '\x60') :
    tokens ('\x60' :: (body ++ '\x60' :: '.' :: '\x60' :: (table ++ '\x60' :: rest))) =
      .quoted '\x60' body body :: .mark '.' :: .quoted '\x60' table table :: tokens rest := by
  rw [tokens_backtick hbody (by simp), tokens_mark (by decide) (by decide) (by decide),
    tokens_backtick htable hrest]

theorem GrantOption.infix {line : List Char} (h : GrantOption line) :
    "WITH GRANT OPTION".toList <:+: line.map Char.toUpper := by
  obtain ⟨first, second, third, hfirst, hsecond, hthird, before, behind, hlex⟩ := h
  have hraw := raw_lex line
  rw [← hlex] at hraw
  have hword : ∀ {name : String} {token : Token}, keyword name token = true →
      token.raw.map Char.toUpper = name.toList := by
    intro name token hkey
    cases token with
    | word text => exact keyword_word.mp hkey
    | quoted delimiter raw text => cases hkey
    | unended delimiter raw => cases hkey
    | mark ch => cases hkey
  refine ⟨(before.flatMap Token.raw).map Char.toUpper,
    (behind.flatMap Token.raw).map Char.toUpper, ?_⟩
  rw [← hraw]
  simp only [List.flatMap_append, List.flatMap_cons, List.flatMap_nil, List.map_append,
    hword hfirst, hword hsecond, hword hthird, List.append_nil]
  rfl

end

/-! ## Patterns -/

section
variable {pattern name : List Char}

theorem Matches.eq_cons_of_literal {ch : Char} (hplain : ch ≠ '\\' ∧ ch ≠ '_' ∧ ch ≠ '%')
    (h : Matches (ch :: pattern) name) :
    ∃ rest, name = ch :: rest ∧ Matches pattern rest := by
  cases h with
  | literal _ hrest => exact ⟨_, rfl, hrest⟩
  | escaped _ => exact absurd rfl hplain.1
  | one _ => exact absurd rfl hplain.2.1
  | none _ => exact absurd rfl hplain.2.2
  | more _ => exact absurd rfl hplain.2.2
  | backslash => exact absurd rfl hplain.1

theorem Matches.eq_cons_of_escaped {ch : Char} (h : Matches ('\\' :: ch :: pattern) name) :
    ∃ rest, name = ch :: rest ∧ Matches pattern rest := by
  cases h with
  | escaped hrest => exact ⟨_, rfl, hrest⟩
  | literal hplain _ => exact absurd rfl hplain.1

/-- Without backslashes and percent signs a text matches itself, also in front of what matches. -/
theorem Matches.append {front : List Char} (hplain : ∀ ch ∈ front, ch ≠ '\\' ∧ ch ≠ '%')
    (h : Matches pattern name) :
    Matches (front ++ pattern) (front ++ name) := by
  induction front with
  | nil => exact h
  | cons ch front ih =>
      rw [List.forall_mem_cons] at hplain
      by_cases hone : ch = '_'
      · rw [hone]
        exact .one (ih hplain.2)
      · exact .literal ⟨hplain.1.1, hone, hplain.1.2⟩ (ih hplain.2)

end

end Mysql
