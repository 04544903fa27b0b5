-- SUMMARY: Escapes by successive replacements, and the readers that undo them.
import Mathlib.Data.List.Basic

/-!
# Escapes

Replacements one after the other are one replacement of characters. A reader that takes the
character behind a backslash by a table undoes it where every character stands for itself or is
written as a backslash and an entry of the table.
-/
namespace Escapes

/-! ## Replacements -/

/-- `text.replaceAll(ch, written)` -/
def replaceAll (ch : Char) (written text : List Char) : List Char :=
  text.flatMap fun other => if other = ch then written else [other]

section
variable {text written : List Char} {ch : Char} {write : Char → List Char}

/-- A replacement of what was written character by character is one of each character. -/
theorem replaceAll_flatMap : replaceAll ch written (text.flatMap write) = text.flatMap fun other =>
    replaceAll ch written (write other) :=
  List.flatMap_assoc

theorem replaceAll_nil : replaceAll ch written [] = [] := rfl

theorem replaceAll_cons {other : Char} :
    replaceAll ch written (other :: text) =
      (if other = ch then written else [other]) ++ replaceAll ch written text := rfl

end

/-! ## Quoted values -/

/-- What stands for a character behind a backslash in an option file. -/
def optionEscape : Char → Option Char
  | 'b' => some '\x08'
  | 't' => some '\t'
  | 'n' => some '\n'
  | 'r' => some '\r'
  | 's' => some ' '
  | '\\' => some '\\'
  | '"' => some '"'
  | '\'' => some '\''
  | _ => none

/-- A backslash in front of anything else stays. -/
def unescape (table : Char → Option Char) : List Char → List Char
  | '\\' :: ch :: text =>
    match table ch with
    | some value => value :: unescape table text
    | none => '\\' :: ch :: unescape table text
  | ch :: text => ch :: unescape table text
  | [] => []

/-- The value of an option: quotes around it go, and the escapes are read. -/
def optionValue (text : List Char) : List Char :=
  match text with
  | quote :: rest =>
    if (quote = '"' ∨ quote = '\'') ∧ rest.getLast? =
      some quote then unescape optionEscape rest.dropLast else unescape optionEscape text
  | [] => []

/-- The character stands for itself, or is written by the table. -/
def Writes (table : Char → Option Char) (ch : Char) (written : List Char) : Prop :=
  ch ≠ '\\' ∧ written = [ch] ∨ ∃ letter, table letter = some ch ∧ written = ['\\', letter]

section
variable {table : Char → Option Char} {write : Char → List Char}

theorem unescape_cons_of_ne {ch : Char} {text : List Char} (h : ch ≠ '\\') :
    unescape table (ch :: text) = ch :: unescape table text := by
  rw [unescape]
  intro other more hch
  exact absurd hch h

theorem unescape_flatMap (h : ∀ ch, Writes table ch (write ch)) (text : List Char) :
    unescape table (text.flatMap write) = text := by
  induction text with
  | nil => rfl
  | cons ch text ih =>
      rw [List.flatMap_cons]
      rcases h ch with ⟨hne, hwrite⟩ | ⟨letter, hletter, hwrite⟩
      · rw [hwrite, List.singleton_append, unescape_cons_of_ne hne, ih]
      · rw [hwrite, List.cons_append, List.singleton_append, unescape, hletter]
        exact congrArg _ ih

theorem optionValue_quoted (text : List Char) :
    optionValue ('"' :: text ++ ['"']) = unescape optionEscape text := by
  have hquoted : ('"' = '"' ∨ '"' = '\'') ∧ (text ++ ['"']).getLast? = some '"' :=
    ⟨.inl rfl, List.getLast?_concat⟩
  rw [List.cons_append, optionValue, if_pos hquoted, List.dropLast_concat]

end

/-! ## Fields between colons -/

/-- A character in front of the first field. -/
def consFirst (ch : Char) : List (List Char) → List (List Char)
  | [] => [[ch]]
  | field :: fields => (ch :: field) :: fields

/-- The fields of a line of a password file: cut at the colons, where a backslash takes its
meaning from the character behind it. -/
def readFields : List Char → List (List Char)
  | '\\' :: ch :: line => consFirst ch (readFields line)
  | ':' :: line => [] :: readFields line
  | ch :: line => consFirst ch (readFields line)
  | [] => [[]]

/-- `\` and `:` behind a backslash. -/
def Protects (ch : Char) (written : List Char) : Prop :=
  ch ≠ '\\' ∧ ch ≠ ':' ∧ written = [ch] ∨ written = ['\\', ch]

section
variable {write : Char → List Char}

theorem readFields_cons {ch : Char} {line : List Char} (hslash : ch ≠ '\\') (hcolon : ch ≠ ':') :
    readFields (ch :: line) = consFirst ch (readFields line) := by
  rw [readFields]
  · intro other more hch
    exact absurd hch hslash
  · exact hcolon

theorem readFields_append (h : ∀ ch, Protects ch (write ch)) (field line : List Char)
    (first : List Char) (fields : List (List Char)) (hline : readFields line = first :: fields) :
    readFields (field.flatMap write ++ line) = (field ++ first) :: fields := by
  induction field with
  | nil => exact hline
  | cons ch field ih =>
      rw [List.flatMap_cons, List.append_assoc]
      rcases h ch with ⟨hslash, hcolon, hwrite⟩ | hwrite
      · rw [hwrite, List.singleton_append, readFields_cons hslash hcolon, ih]
        rfl
      · rw [hwrite, List.cons_append, List.singleton_append, readFields, ih]
        rfl

theorem readFields_intercalate (h : ∀ ch, Protects ch (write ch)) (field : List Char)
    (fields : List (List Char)) :
    readFields ([':'].intercalate ((field :: fields).map (List.flatMap write))) =
      field :: fields := by
  induction fields generalizing field with
  | nil =>
      have hend := readFields_append h field [] [] [] rfl
      rw [List.append_nil, List.append_nil] at hend
      rw [List.map_singleton, List.intercalate_singleton]
      exact hend
  | cons next fields ih =>
      have hcolon :
          readFields (':' :: [':'].intercalate ((next :: fields).map (List.flatMap write))) =
            [] :: next :: fields := by
        rw [readFields, ih]
      have hfront := readFields_append h field _ [] (next :: fields) hcolon
      rw [List.append_nil] at hfront
      rw [List.map_cons, List.map_cons, List.intercalate_cons_cons, List.append_assoc,
        List.singleton_append]
      exact hfront

end

end Escapes
