-- SUMMARY: `assertRecoveryMysqlGrants`: the expressions it applies to each line of `SHOW GRANTS`.
import Pluton.Ends
import Pluton.MysqlGrants

/-!
# Inspection of grants

The account of a database target may have privileges on the approved databases and may read the
guard. Every line is taken apart by an expression at ` ON ` and ` TO `, wherever they first stand.
-/
namespace Pluton.RecoveryImport

structure RecoveryTestError where
  stage : String
  code : String
  deriving DecidableEq

/-- What every refusal throws. -/
def targetUnsafe : RecoveryTestError := ⟨"database-target-preflight", "recovery-target-unsafe"⟩

inductive Purpose where
  | recovery
  | persistent

def guardDatabase : Purpose → String
  | .recovery => "pluton_recovery_guard"
  | .persistent => "pluton_restore_guard"

def guardTable : Purpose → String
  | .recovery => "pluton_recovery_guard"
  | .persistent => "contract"

/-- The privileges that are accepted one by one. -/
def acceptedPrivileges : List String :=
  ["SELECT", "INSERT", "UPDATE", "DELETE", "CREATE", "DROP", "INDEX", "ALTER",
    "CREATE TEMPORARY TABLES", "LOCK TABLES", "EXECUTE", "CREATE VIEW", "SHOW VIEW",
    "CREATE ROUTINE", "ALTER ROUTINE", "EVENT", "TRIGGER", "REFERENCES"]

/-! ## Expressions -/

/-- `text.split(/\r?\n/)` -/
def splitLines (text : List Char) : List (List Char) :=
  let parts := text.splitOn '\n'
  parts.dropLast.map (fun part => if part.getLast? = some '\r' then part.dropLast else part) ++
    parts.getLast?.toList

/-- What `.` does not match. -/
def isLineTerminator (ch : Char) : Bool :=
  ch == '\n' || ch == '\r' || ch == '\u2028' || ch == '\u2029'

/-- The text behind a literal of an expression with the flag `i`. -/
def behindLiteral (literal : String) (text : List Char) : Option (List Char) :=
  let count := literal.toList.length
  if (text.take count).map Char.toUpper = literal.toList then some (text.drop count) else none

/-- `(.+?)` in front of a literal, where `taken` is already in the group: the shortest group such
that `next` matches behind the literal. -/
def lazyGroup {β : Type} (literal : String) (next : List Char → Option β) :
    List Char → List Char → Option (List Char × β)
  | _, [] => none
  | taken, ch :: rest =>
    match if taken = [] then none else (behindLiteral literal (ch :: rest)).bind next with
    | some found => some (taken, found)
    | none => if isLineTerminator ch then none else lazyGroup literal next (taken ++ [ch]) rest

/-- `/^GRANT (.+?) ON (.+?) TO /i.exec(line)`, its two groups. -/
def grantMatch (line : List Char) : Option (List Char × List Char) :=
  (behindLiteral "GRANT " line).bind fun rest =>
    lazyGroup " ON " (fun behind => (lazyGroup " TO " some [] behind).map Prod.fst) [] rest

/-- `/WITH GRANT OPTION/i.test(line)` -/
def withGrantOption (line : List Char) : Prop :=
  "WITH GRANT OPTION".toList <:+: line.map Char.toUpper

instance (line : List Char) : Decidable (withGrantOption line) :=
  inferInstanceAs (Decidable (_ <:+: _))

/-- Every backtick is one of two. -/
def paired : List Char → Bool
  | [] => true
  | '\x60' :: '\x60' :: rest => paired rest
  | ch :: rest => ch != '\x60' && paired rest

/-- The group of the expression that a quoted database and all in it matches. -/
def scopeOf (object : List Char) : Option (List Char) :=
  match object with
  | '\x60' :: rest =>
    let body := rest.take (rest.length - 3)
    if rest.drop (rest.length - 3) = ['\x60', '.', '*'] ∧ body ≠ [] ∧
      paired body then some body else none
  | _ => none

/-- `/(?<!\\)[_%]/.test(text)`, where `escaped` says whether a backslash stands in front. -/
def wildcard : Bool → List Char → Bool
  | _, [] => false
  | escaped, ch :: rest => (!escaped && (ch == '_' || ch == '%')) || wildcard (ch == '\\') rest

/-- `text.replace(/\\([_%])/g, '$1')` -/
def withoutEscapes : List Char → List Char
  | '\\' :: '_' :: rest => '_' :: withoutEscapes rest
  | '\\' :: '%' :: rest => '%' :: withoutEscapes rest
  | ch :: rest => ch :: withoutEscapes rest
  | [] => []

/-- `text.split(/,\s*/)` -/
def splitPrivileges (text : List Char) : List (List Char) :=
  match text.splitOn ',' with
  | first :: rest => first :: rest.map (List.dropWhile Js.isWhitespace)
  | [] => []

/-! ## Lines -/

/-- A table of a database, quoted. -/
def quotedTable (database table : String) : List Char :=
  '\x60' :: (database.toList ++ '\x60' :: '.' :: '\x60' :: (table.toList ++ ['\x60']))

/-- A database and all in it, quoted. -/
def quotedDatabase (database : List Char) : List Char :=
  '\x60' :: (database ++ '\x60' :: '.' :: '*' :: [])

/-- The turn of the loop behind the match of a line. -/
def checkGrant (allowedDatabases : List String) (purpose : Purpose)
    (privileges object : List Char) : Except RecoveryTestError Unit :=
  if object = "*.*".toList ∧ privileges = "USAGE".toList then .ok ()
  else if (object = quotedTable (guardDatabase purpose) (guardTable purpose) ∨
    object = quotedDatabase (guardDatabase purpose).toList) ∧
      privileges = "SELECT".toList then .ok ()
  else match scopeOf object with
    | none => .error targetUnsafe
    | some scope =>
      if wildcard false scope ||
      !allowedDatabases.contains (String.ofList (withoutEscapes scope)) then .error targetUnsafe
      else if privileges ≠ "ALL PRIVILEGES".toList ∧
          (splitPrivileges privileges).any (fun privilege =>
            !acceptedPrivileges.contains (String.ofList privilege)) then .error targetUnsafe
      else .ok ()

/-- A turn of the loop over the lines. -/
def checkLine (allowedDatabases : List String) (purpose : Purpose) (line : List Char) :
    Except RecoveryTestError Unit :=
  if withGrantOption line then .error targetUnsafe
  else match grantMatch line with
    | none => .error targetUnsafe
    | some (privileges, object) => checkGrant allowedDatabases purpose privileges object

/-- The lines of the output. There is always one. -/
def linesOf (output : String) : List (List Char) := splitLines (Js.trim output).toList

def assertRecoveryMysqlGrants (output : String) (allowedDatabases : List String)
    (purpose : Purpose) : Except RecoveryTestError Unit :=
  (linesOf output).forM (checkLine allowedDatabases purpose)

-- The underscore of a database's name is a wildcard unless it is escaped.
example : assertRecoveryMysqlGrants "GRANT SELECT ON \x60a_b\x60.* TO x" ["a_b"] .recovery =
    .error targetUnsafe := by decide +kernel

end Pluton.RecoveryImport
