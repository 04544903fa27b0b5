-- SUMMARY: The credential files of the agent and the importer, and what clients read back.
import Pluton.Escapes
import Pluton.Lifecycle.Policy

/-!
# Credential files

The agent and the importer of a recovery test write the same two kinds of files, each with escapes
of its own: a line of fields between colons for PostgreSQL, quoted options for the others.
-/
namespace Pluton.Lifecycle

open Escapes

/-! ## The agent -/

/-- `escape` of `postgresPasswordFile`. -/
def escape (value : String) : List Char :=
  replaceAll ':' ['\\', ':'] (replaceAll '\\' ['\\', '\\'] value.toList)

def postgresPasswordFile (db : Agent.DatabaseBackup) : String :=
  String.ofList ([':'].intercalate
    ([db.host, toString db.port, db.database, db.username, db.password].map escape) ++ ['\n'])

def defaultsValue (value : String) : String :=
  let text := replaceAll '\\' ['\\', '\\'] value.toList
  let text := replaceAll '"' ['\\', '"'] text
  let text := replaceAll '\n' ['\\', 'n'] text
  let text := replaceAll '\r' ['\\', 'r'] text
  let text := replaceAll '\t' ['\\', 't'] text
  let text := replaceAll '\x08' ['\\', 'b'] text
  String.ofList ('"' :: text ++ ['"'])

/-! ## The importer -/

namespace Importer

structure RecoveryTarget where
  engine : Engine
  host : String
  port : Nat
  username : String
  tls : Tls
  enabled : Bool
  dedicated : Bool
  password : Option String

/-- `[A-Za-z_]` -/
def nameStart (ch : Char) : Bool := ch.isAlpha || ch == '_'

/-- `recoveryTargetSchema` -/
def validTarget (target : RecoveryTarget) : Bool :=
  1 ≤ Js.length target.host && Js.length target.host ≤ 253 && hostPattern target.host &&
    1 ≤ target.port && target.port ≤ 65535 &&
    Pattern.headed nameStart Pattern.word target.username && target.username.toList.length ≤ 63 &&
    target.dedicated &&
    target.password.all (fun password =>
      Js.length password ≤ 4096 && !password.toList.any fun ch =>
        ch == '\r' || ch == '\n' || ch == '\x00') &&
    (target.tls != .local || isLoopback target.host)

def quote (value : String) : String :=
  let text := replaceAll '\\' ['\\', '\\'] value.toList
  let text := replaceAll '"' ['\\', '"'] text
  let text := replaceAll '\t' ['\\', 't'] text
  String.ofList ('"' :: text ++ ['"'])

def pgpass (value : String) : List Char :=
  replaceAll ':' ['\\', ':'] (replaceAll '\\' ['\\', '\\'] value.toList)

/-- The password file for every database of the target. -/
def passwordFile (target : RecoveryTarget) (password : String) : String :=
  String.ofList (pgpass target.host ++ ':' :: (toString target.port).toList ++
    ':' :: '*' :: ':' :: pgpass target.username ++
    ':' :: pgpass password ++ ['\n'])

end Importer

/-! ## Character by character -/

/-- What `escape` and `pgpass` make of a character. -/
def protect (ch : Char) : List Char :=
  replaceAll ':' ['\\', ':'] (if ch = '\\' then ['\\', '\\'] else [ch])

theorem protect_of_ne {ch : Char} (hslash : ch ≠ '\\') (hcolon : ch ≠ ':') : protect ch = [ch] := by
  simp only [protect, if_neg hslash, if_neg hcolon, replaceAll_cons,
    replaceAll_nil, List.append_nil]

theorem protects_protect (ch : Char) : Protects ch (protect ch) := by
  by_cases hslash : ch = '\\'
  · subst hslash
    exact .inr rfl
  by_cases hcolon : ch = ':'
  · subst hcolon
    exact .inr rfl
  · exact .inl ⟨hslash, hcolon, protect_of_ne hslash hcolon⟩

theorem escape_eq (value : String) : escape value = value.toList.flatMap protect :=
  replaceAll_flatMap

theorem pgpass_eq (value : String) : Importer.pgpass value = value.toList.flatMap protect :=
  replaceAll_flatMap

/-- What `defaultsValue` makes of a character. -/
def defaultsChar (ch : Char) : List Char :=
  replaceAll '\x08' ['\\', 'b'] <| replaceAll '\t' ['\\', 't'] <|
    replaceAll '\r' ['\\', 'r'] <| replaceAll '\n' ['\\', 'n'] <|
    replaceAll '"' ['\\', '"'] <| if ch = '\\' then ['\\', '\\'] else [ch]

theorem toList_defaultsValue (value : String) :
    (defaultsValue value).toList = '"' :: value.toList.flatMap defaultsChar ++ ['"'] := by
  unfold defaultsValue
  dsimp only
  rw [String.toList_ofList]
  nth_rewrite 6 [replaceAll]
  simp only [replaceAll_flatMap]
  rfl

/-- What `quote` of the importer makes of a character. -/
def quoteChar (ch : Char) : List Char :=
  replaceAll '\t' ['\\', 't'] <| replaceAll '"' ['\\', '"'] <|
    if ch = '\\' then ['\\', '\\'] else [ch]

theorem toList_quote (value : String) :
    (Importer.quote value).toList = '"' :: value.toList.flatMap quoteChar ++ ['"'] := by
  unfold Importer.quote
  dsimp only
  rw [String.toList_ofList]
  nth_rewrite 3 [replaceAll]
  simp only [replaceAll_flatMap]
  rfl

/-- A character is written by the table, or stands for itself. -/
theorem defaultsChar_cases (ch : Char) :
    (∃ letter ∈ ['\\', '"', 'n', 'r', 't', 'b'],
      optionEscape letter = some ch ∧ defaultsChar ch = ['\\', letter]) ∨
    ch ∉ ['\\', '"', '\n', '\r', '\t', '\x08'] ∧ defaultsChar ch = [ch] := by
  by_cases hwritten : ch ∈ ['\\', '"', '\n', '\r', '\t', '\x08']
  · have hall : ∀ ch ∈ ['\\', '"', '\n', '\r', '\t', '\x08'], ∃ letter ∈ ['\\', '"',
        'n', 'r', 't', 'b'],
        optionEscape letter = some ch ∧ defaultsChar ch = ['\\', letter] := by
      simp only [List.forall_mem_cons]
      refine ⟨⟨'\\', ?_⟩, ⟨'"', ?_⟩, ⟨'n', ?_⟩, ⟨'r', ?_⟩, ⟨'t', ?_⟩, ⟨'b', ?_⟩, nofun⟩ <;> decide
    exact .inl (hall ch hwritten)
  · refine .inr ⟨hwritten, ?_⟩
    simp only [List.mem_cons, List.not_mem_nil, or_false, not_or] at hwritten
    obtain ⟨hslash, hquote, hfeed, hreturn, htab, hback⟩ := hwritten
    simp only [defaultsChar, if_neg hslash, if_neg hquote, if_neg hfeed, if_neg hreturn,
      if_neg htab, if_neg hback, replaceAll_cons, replaceAll_nil, List.append_nil]

theorem quoteChar_cases (ch : Char) :
    (∃ letter ∈ ['\\', '"', 't'], optionEscape letter = some ch ∧ quoteChar ch = ['\\', letter]) ∨
    ch ∉ ['\\', '"', '\t'] ∧ quoteChar ch = [ch] := by
  by_cases hwritten : ch ∈ ['\\', '"', '\t']
  · have hall : ∀ ch ∈ ['\\', '"', '\t'], ∃ letter ∈ ['\\', '"', 't'],
        optionEscape letter = some ch ∧ quoteChar ch = ['\\', letter] := by
      simp only [List.forall_mem_cons]
      refine ⟨⟨'\\', ?_⟩, ⟨'"', ?_⟩, ⟨'t', ?_⟩, nofun⟩ <;> decide
    exact .inl (hall ch hwritten)
  · refine .inr ⟨hwritten, ?_⟩
    simp only [List.mem_cons, List.not_mem_nil, or_false, not_or] at hwritten
    obtain ⟨hslash, hquote, htab⟩ := hwritten
    simp only [quoteChar, if_neg hslash, if_neg hquote, if_neg htab, replaceAll_cons,
      replaceAll_nil, List.append_nil]

theorem writes_defaultsChar (ch : Char) : Writes optionEscape ch (defaultsChar ch) := by
  rcases defaultsChar_cases ch with ⟨letter, -, h⟩ | ⟨hnot, heq⟩
  · exact .inr ⟨letter, h⟩
  · exact .inl ⟨List.ne_of_not_mem_cons hnot, heq⟩

theorem writes_quoteChar (ch : Char) : Writes optionEscape ch (quoteChar ch) := by
  rcases quoteChar_cases ch with ⟨letter, -, h⟩ | ⟨hnot, heq⟩
  · exact .inr ⟨letter, h⟩
  · exact .inl ⟨List.ne_of_not_mem_cons hnot, heq⟩

/-! ## Lines -/

/-- The text has no end of a line. -/
def Unbroken (text : List Char) : Prop := ∀ ch ∈ text, ch ≠ '\r' ∧ ch ≠ '\n'

section
variable {text : List Char} {value : String} {write : Char → List Char}

theorem unbroken_of_hasLineBreak (h : hasLineBreak value = false) : Unbroken value.toList := by
  intro ch hch
  simpa using List.any_eq_false.mp h ch hch

theorem Unbroken.flatMap (h : Unbroken text)
    (hwrite : ∀ ch, ch ≠ '\r' ∧ ch ≠ '\n' → Unbroken (write ch)) :
    Unbroken (text.flatMap write) := by
  intro ch hch
  obtain ⟨other, hother, hmem⟩ := List.mem_flatMap.mp hch
  exact hwrite other (h other hother) ch hmem

theorem unbroken_cons {ch : Char} :
    Unbroken (ch :: text) ↔ (ch ≠ '\r' ∧ ch ≠ '\n') ∧ Unbroken text := List.forall_mem_cons

theorem unbroken_append {other : List Char} :
    Unbroken (text ++ other) ↔ Unbroken text ∧ Unbroken other := List.forall_mem_append

theorem unbroken_protect (ch : Char) (hch : ch ≠ '\r' ∧ ch ≠ '\n') : Unbroken (protect ch) := by
  rcases protects_protect ch with ⟨-, -, heq⟩ | heq
  · rw [heq]
    exact unbroken_cons.mpr ⟨hch, nofun⟩
  · rw [heq]
    exact unbroken_cons.mpr ⟨by decide, unbroken_cons.mpr ⟨hch, nofun⟩⟩

/-- The quoted value is on one line whatever it holds. -/
theorem unbroken_defaultsValue (value : String) : Unbroken (defaultsValue value).toList := by
  rw [toList_defaultsValue]
  refine unbroken_append.mpr ⟨unbroken_cons.mpr ⟨by decide, fun ch hch => ?_⟩,
    unbroken_cons.mpr ⟨by decide, nofun⟩⟩
  obtain ⟨other, -, hmem⟩ := List.mem_flatMap.mp hch
  rcases defaultsChar_cases other with ⟨letter, hletter, -, heq⟩ | ⟨hnot, heq⟩
  · have hletters : ∀ letter ∈ ['\\', '"', 'n', 'r', 't', 'b'], letter ≠ '\r' ∧ letter ≠ '\n' :=
      List.forall_iff_forall_mem.mp (by decide)
    rw [heq] at hmem
    have hescape : Unbroken ['\\', letter] :=
      unbroken_cons.mpr ⟨by decide, unbroken_cons.mpr ⟨hletters letter hletter, nofun⟩⟩
    exact hescape ch hmem
  · rw [heq, List.mem_singleton] at hmem
    subst hmem
    simp only [List.mem_cons, not_or] at hnot
    exact ⟨hnot.2.2.2.1, hnot.2.2.1⟩

/-- The importer keeps a value on one line that is on one. -/
theorem unbroken_quote (h : Unbroken value.toList) : Unbroken (Importer.quote value).toList := by
  rw [toList_quote]
  refine unbroken_append.mpr ⟨unbroken_cons.mpr ⟨by decide, h.flatMap fun ch hch => ?_⟩,
    unbroken_cons.mpr ⟨by decide, nofun⟩⟩
  rcases quoteChar_cases ch with ⟨letter, hletter, -, heq⟩ | ⟨-, heq⟩
  · have hletters : ∀ letter ∈ ['\\', '"', 't'], letter ≠ '\r' ∧ letter ≠ '\n' :=
      List.forall_iff_forall_mem.mp (by decide)
    rw [heq]
    exact unbroken_cons.mpr ⟨by decide, unbroken_cons.mpr ⟨hletters letter hletter, nofun⟩⟩
  · rw [heq]
    exact unbroken_cons.mpr ⟨hch, nofun⟩

theorem unbroken_toString (n : Nat) : Unbroken (toString n).toList := by
  rw [Nat.toString_eq_ofList_toDigits, String.toList_ofList]
  intro ch hch
  have hdigit := Nat.isDigit_of_mem_toDigits (by decide) (by decide) hch
  constructor
  · rintro rfl
    exact absurd hdigit (by decide)
  · rintro rfl
    exact absurd hdigit (by decide)

/-- The characters of a class without the ends of a line. -/
theorem unbroken_of_headed {head tail : Char → Bool} (h : Pattern.headed head tail value = true)
    (hhead : head '\r' = false ∧ head '\n' = false)
    (htail : tail '\r' = false ∧ tail '\n' = false) : Unbroken value.toList := by
  have hclass : ∀ cls : Char → Bool, cls '\r' = false ∧ cls '\n' = false → ∀ ch, cls ch = true →
      ch ≠ '\r' ∧ ch ≠ '\n' := by
    rintro cls ⟨hreturn, hfeed⟩ ch hch
    constructor
    · rintro rfl
      exact Bool.false_ne_true (hreturn.symm.trans hch)
    · rintro rfl
      exact Bool.false_ne_true (hfeed.symm.trans hch)
  exact Pattern.forall_of_headed h (hclass head hhead) (hclass tail htail)

theorem unbroken_host (h : hostPattern value = true) : Unbroken value.toList := by
  rcases Bool.or_eq_true_iff.mp h with hheaded | hloopback
  · exact unbroken_of_headed hheaded (by decide) (by decide)
  · rw [beq_iff_eq.mp hloopback]
    exact List.forall_iff_forall_mem.mp (by decide)

end

/-! ## Accepted entries -/

section
open Except

theorem pattern_of_text {value : Option Json} {pattern : String → Bool} {max : Nat} {read : String}
    (h : Agent.text value pattern max = .ok read) :
    pattern read = true := by
  unfold Agent.text at h
  split at h
  next given =>
    split at h
    · cases h
    next hgood =>
      obtain rfl := Except.ok.inj h
      simp only [Bool.or_eq_true, not_or, Bool.not_eq_true, Bool.not_eq_false'] at hgood
      exact hgood.2
  · cases h

/-- What the agent accepts for PostgreSQL has no end of a line in it. -/
theorem readDatabase_unbroken {collection : Bool} {entry : Json} {db : Agent.DatabaseBackup}
    (h : Agent.readDatabase collection entry = .ok db) (hengine : db.engine = .postgresql) :
    Unbroken db.host.toList ∧ Unbroken db.database.toList ∧ Unbroken db.username.toList ∧
    Unbroken db.password.toList := by
  simp only [Agent.readDatabase, bind_eq_ok, refuseIf_eq_ok, pure_eq_ok] at h
  obtain ⟨_, -, _, -, engine, -, _, -, _, -, password, -, _, hrefused, _, -, host, hhost, _, -,
    database, hdatabase, username, husername,
    _, -, _, -, _, -, _, -, _, -, rfl⟩ := h
  obtain rfl : engine = .postgresql := hengine
  simp only [BEq.rfl, Bool.true_and, Bool.or_eq_false_iff] at hrefused
  exact ⟨unbroken_host (pattern_of_text hhost),
    unbroken_of_headed (pattern_of_text hdatabase) (by decide) (by decide),
    unbroken_of_headed (pattern_of_text husername) (by decide) (by decide),
    unbroken_of_hasLineBreak hrefused.1.1⟩

theorem readDatabase_of_mem {fold : String → String} {value : Option Json}
    {lifecycle : Agent.BackupLifecycle} {db : Agent.DatabaseBackup}
    (hparse : Agent.parseBackupLifecycle fold value = .ok lifecycle)
    (hdb : db ∈ Agent.lifecycleDatabases lifecycle) :
    ∃ collection entry, Agent.readDatabase collection entry = .ok db := by
  simp only [Agent.parseBackupLifecycle, bind_eq_ok, refuseIf_eq_ok, pure_eq_ok] at hparse
  obtain ⟨_, -, collection, -, _, -, entries, -, databases, hread, _, -, _, -, rfl⟩ := hparse
  have hmem : db ∈ databases := by
    cases collection with
    | false => exact List.mem_of_mem_head? (Option.mem_toList.mp hdb)
    | true => exact hdb
  obtain ⟨entry, -, hentry⟩ := mem_of_mapM hread hmem
  exact ⟨collection, entry, hentry⟩

theorem validTarget_unbroken {target : Importer.RecoveryTarget} {password : String}
    (h : Importer.validTarget target = true) (hpassword : target.password = some password) :
    Unbroken target.host.toList ∧ Unbroken target.username.toList ∧ Unbroken password.toList := by
  simp only [Importer.validTarget, hpassword, Option.all_some, Bool.and_eq_true] at h
  obtain ⟨⟨⟨⟨⟨⟨⟨⟨⟨-, -⟩, hhost⟩, -⟩, -⟩, husername⟩, -⟩, -⟩, -, hfree⟩, -⟩ := h
  refine ⟨unbroken_host hhost, unbroken_of_headed husername (by decide) (by decide),
    fun ch hch => ?_⟩
  simp only [Bool.not_eq_true', List.any_eq_false, Bool.or_eq_true, beq_iff_eq, not_or] at hfree
  exact (hfree ch hch).1

/-! ## What the clients read -/

theorem unbroken_line {fields : List (List Char)} (h : ∀ field ∈ fields, Unbroken field) :
    Unbroken ([':'].intercalate (fields.map (List.flatMap protect))) := by
  induction fields with
  | nil => exact nofun
  | cons field fields ih =>
      rw [List.forall_mem_cons] at h
      have hfield := h.1.flatMap unbroken_protect
      cases fields with
      | nil => rwa [List.map_singleton, List.intercalate_singleton]
      | cons next fields =>
          rw [List.map_cons, List.map_cons, List.intercalate_cons_cons, List.append_assoc,
            List.singleton_append]
          exact unbroken_append.mpr ⟨hfield, unbroken_cons.mpr ⟨by decide, ih h.2⟩⟩

theorem toList_postgresPasswordFile (db : Agent.DatabaseBackup) : (postgresPasswordFile db).toList =
    [':'].intercalate ([db.host.toList, (toString db.port).toList, db.database.toList,
      db.username.toList, db.password.toList].map
      (List.flatMap protect)) ++ ['\n'] := by
  unfold postgresPasswordFile
  rw [String.toList_ofList]
  simp only [List.map_cons, List.map_nil, escape_eq]

/-- The line of the importer. Its port and its star are nothing to protect. -/
theorem toList_passwordFile (target : Importer.RecoveryTarget) (password : String) :
    (Importer.passwordFile target password).toList =
    [':'].intercalate ([target.host.toList, (toString target.port).toList, ['*'],
      target.username.toList, password.toList].map
      (List.flatMap protect)) ++ ['\n'] := by
  have hport : (toString target.port).toList.flatMap protect = (toString target.port).toList := by
    refine (List.flatMap_congr fun ch hch => ?_).trans (List.flatMap_singleton' _)
    rw [Nat.toString_eq_ofList_toDigits, String.toList_ofList] at hch
    have hdigit := Nat.isDigit_of_mem_toDigits (by decide) (by decide) hch
    refine protect_of_ne ?_ ?_
    · rintro rfl
      exact absurd hdigit (by decide)
    · rintro rfl
      exact absurd hdigit (by decide)
  unfold Importer.passwordFile
  rw [String.toList_ofList]
  simp only [pgpass_eq, List.map_cons, List.map_nil, hport, List.intercalate_cons_cons,
    List.intercalate_singleton, List.append_assoc, List.cons_append, List.nil_append]
  rfl

/-- libpq reads the five fields back that were written, from one line where the agent accepted the
entry for PostgreSQL and in every file of the importer; and every quoted option has the value that
was quoted, on one line. -/
theorem credentials_read_back {fold : String → String} {value : Option Json}
    {lifecycle : Agent.BackupLifecycle} {db : Agent.DatabaseBackup}
    {target : Importer.RecoveryTarget} {password : String}
    (hparse : Agent.parseBackupLifecycle fold value = .ok lifecycle)
    (hdb : db ∈ Agent.lifecycleDatabases lifecycle) (htarget : Importer.validTarget target = true)
    (hpassword : target.password = some password) :
    (∃ line, (postgresPasswordFile db).toList = line ++ ['\n'] ∧
      readFields line = [db.host.toList, (toString db.port).toList, db.database.toList,
        db.username.toList, db.password.toList] ∧
      (db.engine = .postgresql → Unbroken line)) ∧
    (∃ line, (Importer.passwordFile target password).toList = line ++ ['\n'] ∧
      readFields line = [target.host.toList, (toString target.port).toList, ['*'],
        target.username.toList, password.toList] ∧
      Unbroken line) ∧
    (∀ text, optionValue (defaultsValue text).toList = text.toList ∧
      Unbroken (defaultsValue text).toList) ∧
    (∀ text, optionValue (Importer.quote text).toList = text.toList) ∧
    ∀ text ∈ [target.host, target.username, password], Unbroken (Importer.quote text).toList := by
  obtain ⟨hhost, husername, hpass⟩ := validTarget_unbroken htarget hpassword
  refine ⟨⟨_, toList_postgresPasswordFile db, readFields_intercalate protects_protect _ _,
    fun hengine => unbroken_line ?_⟩,
    ⟨_, toList_passwordFile target password, readFields_intercalate protects_protect _ _,
      unbroken_line ?_⟩, fun text => ⟨?_, ?_⟩,
    fun text => ?_, ?_⟩
  · obtain ⟨collection, entry, hread⟩ := readDatabase_of_mem hparse hdb
    obtain ⟨hdbHost, hdatabase, hdbUsername, hdbPassword⟩ := readDatabase_unbroken hread hengine
    simp only [List.forall_mem_cons]
    exact ⟨hdbHost, unbroken_toString _, hdatabase, hdbUsername, hdbPassword, nofun⟩
  · simp only [List.forall_mem_cons]
    exact ⟨hhost, unbroken_toString _, unbroken_cons.mpr ⟨by decide, nofun⟩,
      husername, hpass, nofun⟩
  · rw [toList_defaultsValue, optionValue_quoted]
    exact unescape_flatMap writes_defaultsChar _
  · exact unbroken_defaultsValue text
  · rw [toList_quote, optionValue_quoted]
    exact unescape_flatMap writes_quoteChar _
  · simp only [List.forall_mem_cons]
    exact ⟨unbroken_quote hhost, unbroken_quote husername, unbroken_quote hpass, nofun⟩

/-- An entry for PostgreSQL with every character that its line protects. -/
def sampleBackup : Agent.DatabaseBackup where
  databaseId := some "db_1"
  engine := .postgresql
  host := "::1"
  port := 5432
  database := "shop"
  tls := .local
  username := "backup"
  password := "a:\\b\"\tc"
  dumpFilename := "shop.sql"
  timeoutSeconds := 60
  maxDumpBytes := 1048576
  includeRoutines := false
  includeEvents := false

def sampleTarget : Importer.RecoveryTarget where
  engine := .mysql
  host := "127.0.0.1"
  port := 3306
  username := "recovery"
  tls := .local
  enabled := true
  dedicated := true
  password := some "a:\\b\"\tc"

def samplePayload : Json :=
  .obj [("version", .nat 2), ("databases",
    .arr [.obj [("databaseId", .str "db_1"), ("engine", .str "postgresql"), ("host", .str "::1"),
      ("port", .nat 5432), ("tls", .str "local"), ("database", .str "shop"),
      ("username", .str "backup"), ("password", .str "a:\\b\"\tc"),
    ("dumpFilename", .str "shop.sql"), ("timeoutSeconds", .nat 60), ("maxDumpBytes", .nat 1048576),
    ("includeRoutines", .bool false), ("includeEvents", .bool false)]])]

theorem credentials_read_back_sample :
    Agent.parseBackupLifecycle id (some samplePayload) =
      .ok (.collection [sampleBackup] ⟨none, none⟩) ∧
    (∃ line, (postgresPasswordFile sampleBackup).toList = line ++ ['\n'] ∧
      readFields line = [sampleBackup.host.toList, (toString sampleBackup.port).toList,
        sampleBackup.database.toList, sampleBackup.username.toList, sampleBackup.password.toList] ∧
      (sampleBackup.engine = .postgresql → Unbroken line)) ∧
    (∃ line, (Importer.passwordFile sampleTarget "a:\\b\"\tc").toList = line ++ ['\n'] ∧
      readFields line = [sampleTarget.host.toList, (toString sampleTarget.port).toList, ['*'],
        sampleTarget.username.toList, "a:\\b\"\tc".toList] ∧ Unbroken line) ∧
    (∀ text, optionValue (defaultsValue text).toList = text.toList ∧
      Unbroken (defaultsValue text).toList) ∧
    (∀ text, optionValue (Importer.quote text).toList = text.toList) ∧
    ∀ text ∈ [sampleTarget.host, sampleTarget.username, "a:\\b\"\tc"],
      Unbroken (Importer.quote text).toList := by
  have hparse : Agent.parseBackupLifecycle id (some samplePayload) =
      .ok (.collection [sampleBackup] ⟨none, none⟩) := by decide +kernel
  exact ⟨hparse, credentials_read_back hparse (List.mem_singleton_self _) (by decide +kernel) rfl⟩

example : postgresPasswordFile sampleBackup = "\\:\\:1:5432:shop:backup:a\\:\\\\b\"\tc\n" := by
  decide +kernel

end

end Pluton.Lifecycle
