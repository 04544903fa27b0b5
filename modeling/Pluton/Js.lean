-- SUMMARY: JavaScript built-ins that Lean has not under the same meaning.
import Mathlib.Algebra.GroupWithZero.Nat
import Mathlib.Data.List.Basic
import Mathlib.Data.List.Dedup
import Mathlib.Data.List.Infix
import Mathlib.Data.List.Sort
import Mathlib.Data.String.Basic

/-!
# JavaScript built-ins

Texts, numbers, dates and JSON as the language and its library understand them.
A text here never has a lone surrogate: it was decoded from UTF-8.
-/
namespace Js

/-! ## Texts -/

/-- `WhiteSpace` and `LineTerminator` of the language. -/
def isWhitespace (ch : Char) : Bool :=
  let n := ch.toNat
  (9 ≤ n && n ≤ 13) ||
    [0x20, 0xA0, 0x1680, 0x2028, 0x2029, 0x202F, 0x205F, 0x3000, 0xFEFF].contains n ||
    (0x2000 ≤ n && n ≤ 0x200A)

/-- `text.trim()` -/
def trim (text : String) : String :=
  String.ofList ((text.toList.dropWhile isWhitespace).reverse.dropWhile isWhitespace).reverse

/-- `text.length`, in UTF-16 code units. -/
def length (text : String) : Nat :=
  (text.toList.map fun ch => if ch.toNat < 0x10000 then 1 else 2).sum

/-- `text.split(sep)` -/
def split (sep : Char) (text : String) : List String :=
  (text.toList.splitOn sep).map String.ofList

/-- `text.startsWith(start)` -/
def startsWith (start text : String) : Bool := start.toList.isPrefixOf text.toList

/-- `text.endsWith(tail)` -/
def endsWith (tail text : String) : Bool := tail.toList.isSuffixOf text.toList

/-- `text.includes(ch)` -/
def includes (ch : Char) (text : String) : Bool := text.toList.contains ch

/-- `Buffer.byteLength(text)` -/
def byteLength (text : String) : Nat := text.utf8ByteSize

/-- `new TextDecoder('utf-8', { fatal: true }).decode(bytes)`, which drops a byte order
mark at the start. -/
def decodeFatal (bytes : List UInt8) : Option String :=
  let rest := if [0xEF, 0xBB, 0xBF].isPrefixOf bytes then bytes.drop 3 else bytes
  String.fromUTF8? ⟨rest.toArray⟩

/-- `texts.sort()`. It compares UTF-16 code units, which is the order of the
characters when the texts are ASCII. -/
def sort (texts : List String) : List String :=
  texts.insertionSort fun a b => a.toList ≤ b.toList

/-- The UTF-16 code units of a text. -/
def codeUnits (text : String) : List Nat :=
  text.toList.flatMap fun ch =>
    if ch.toNat < 0x10000 then [ch.toNat]
    else [0xD800 + (ch.toNat - 0x10000) / 0x400, 0xDC00 + (ch.toNat - 0x10000) % 0x400]

/-- `[...new Set(texts)].sort()`, in the order of the code units. -/
def sortedSet (texts : List String) : List String :=
  texts.dedup.insertionSort fun a b => codeUnits a ≤ codeUnits b

theorem mem_sortedSet {texts : List String} {text : String} :
    text ∈ sortedSet texts ↔ text ∈ texts := by
  unfold sortedSet
  rw [(List.perm_insertionSort _ _).mem_iff, List.mem_dedup]

/-! ## Splitting -/

theorem split_ne_nil (sep : Char) (text : String) : split sep text ≠ [] :=
  fun h => List.splitOn_ne_nil sep text.toList (List.map_eq_nil_iff.mp h)

variable {α : Type} {key other : String}

theorem not_mem_of_mem_splitOn [BEq α] [LawfulBEq α] {sep : α} {list part : List α}
    (h : part ∈ list.splitOn sep) : sep ∉ part := by
  induction list generalizing part with
  | nil =>
      rw [List.splitOn_nil, List.mem_singleton] at h
      rw [h]
      exact List.not_mem_nil
  | cons x list ih =>
      rw [List.splitOn_cons_eq_if_modifyHead] at h
      split at h
      · rcases List.mem_cons.mp h with rfl | h
        · exact List.not_mem_nil
        · exact ih h
      next hx =>
        cases hparts : list.splitOn sep with
        | nil => exact absurd hparts (List.splitOn_ne_nil sep list)
        | cons first parts =>
            rw [hparts, List.modifyHead_cons, List.mem_cons] at h
            rcases h with rfl | h
            · have hne : sep ≠ x := fun heq => hx (beq_iff_eq.mpr heq.symm)
              exact List.not_mem_cons_of_ne_of_not_mem hne (ih (hparts ▸ List.mem_cons_self))
            · exact ih (hparts ▸ List.mem_cons_of_mem first h)

theorem not_mem_of_mem_split {sep : Char} {text part : String} (h : part ∈ split sep text) :
    sep ∉ part.toList := by
  obtain ⟨chars, hchars, rfl⟩ := List.mem_map.mp h
  rw [String.toList_ofList]
  exact not_mem_of_mem_splitOn hchars

/-- `parts.join(sep).split(sep)` -/
theorem split_join {sep : Char} {parts : List String} (hne : parts ≠ [])
    (h : ∀ part ∈ parts, sep ∉ part.toList) :
    split sep ((String.singleton sep).intercalate parts) = parts := by
  have hparts : parts.map String.toList ≠ [] := fun hnil => hne (List.map_eq_nil_iff.mp hnil)
  have hfree : ∀ chars ∈ parts.map String.toList, sep ∉ chars := by
    intro chars hchars
    obtain ⟨part, hpart, rfl⟩ := List.mem_map.mp hchars
    exact h part hpart
  rw [split, String.toList_intercalate, String.toList_singleton,
    List.splitOn_intercalate sep hfree hparts, List.map_map]
  exact List.map_id'' (fun part => String.ofList_toList) parts

theorem split_append (sep : Char) (front tail : String) :
    split sep (front ++ String.singleton sep ++ tail) = split sep front ++ split sep tail := by
  simp only [split, String.toList_append, String.toList_singleton, List.append_assoc,
    List.singleton_append, List.splitOn_append_cons_self, List.map_append]

/-! ## Maps -/

/-- `map.set(key, value)`; a key that is there keeps its place. -/
def mapSet {α : Type} (map : List (String × α)) (key : String) (value : α) : List (String × α) :=
  if map.any (·.1 == key) then map.map fun entry => if entry.1 == key then (key, value) else entry
  else map ++ [(key, value)]

theorem mem_of_lookup {map : List (String × α)} {key : String} {value : α}
    (h : map.lookup key = some value) : (key, value) ∈ map := by
  obtain ⟨before, after, rfl, -⟩ := List.lookup_eq_some_iff.mp h
  exact List.mem_append_right before List.mem_cons_self

theorem mapSet_cons_of_ne (map : List (String × α)) (value held : α) (h : other ≠ key) :
    mapSet ((other, held) :: map) key value = (other, held) :: mapSet map key value := by
  unfold mapSet
  by_cases hany : map.any (·.1 == key)
  · simp [h, hany]
  · simp [h, hany]

theorem lookup_mapSet_self (map : List (String × α)) (key : String) (value : α) :
    (mapSet map key value).lookup key = some value := by
  induction map with
  | nil => simp [mapSet]
  | cons entry map ih =>
      obtain ⟨other, held⟩ := entry
      by_cases hkey : other = key
      · simp [mapSet, hkey]
      · have hfalse : (key == other) = false := beq_false_of_ne fun h => hkey h.symm
        rw [mapSet_cons_of_ne map value held hkey, List.lookup_cons, hfalse]
        exact ih

theorem lookup_map_of_ne (map : List (String × α)) (value : α) (h : other ≠ key) :
    (map.map fun entry => if entry.1 == key then (key, value) else entry).lookup other =
      map.lookup other := by
  have hother : (other == key) = false := beq_false_of_ne h
  induction map with
  | nil => rfl
  | cons entry map ih =>
      obtain ⟨name, held⟩ := entry
      by_cases hname : name = key
      · subst hname
        simp only [List.map_cons, beq_self_eq_true, if_true, List.lookup_cons, hother]
        exact ih
      · have hkeep : (name == key) = false := beq_false_of_ne hname
        simp only [List.map_cons, hkeep, Bool.false_eq_true, if_false, List.lookup_cons, ih]

theorem lookup_mapSet_of_ne (map : List (String × α)) (value : α) (h : other ≠ key) :
    (mapSet map key value).lookup other = map.lookup other := by
  unfold mapSet
  split
  · exact lookup_map_of_ne map value h
  · simp [List.lookup_append, List.lookup_cons, beq_false_of_ne h]

/-! ## Numbers -/

/-- `Number.MAX_SAFE_INTEGER` -/
def maxSafeInteger : Nat := 2 ^ 53 - 1

/-- `num / den` to the nearest integer, ties to the even one. -/
def roundHalfEven (num den : Nat) : Nat :=
  let q := num / den
  let twice := 2 * (num % den)
  if den < twice || (twice == den && q % 2 == 1) then q + 1 else q

/-- One is this many units. Every finite double is a whole number of units. -/
def unitsPerOne : Nat := 2 ^ 1074

/-- The double nearest to `num / den`, in units of `2 ^ -1074`. The quotients the code
forms are far below the largest double. -/
def nearestDouble (num den : Nat) : Nat :=
  let exact := num * unitsPerOne
  let ulp := 2 ^ (Nat.log2 (exact / den) - 52)
  roundHalfEven exact (den * ulp) * ulp

/-- `Math.trunc` of a double in units. -/
def truncDouble (units : Nat) : Nat := units / unitsPerOne

/-! ## Dates -/

/-- The largest time value of a `Date`, in milliseconds. -/
def maxTime : Nat := 8640000000000000

/-- `text.padStart(width, '0')` of a number. -/
def padded (width n : Nat) : String :=
  let digits := Nat.toDigits 10 n
  String.ofList (List.replicate (width - digits.length) '0' ++ digits)

/-- The proleptic Gregorian year, month and day of a day counted from 1970-01-01. -/
def civil (day : Int) : Int × Nat × Nat :=
  let z := day + 719468
  let era := z.fdiv 146097
  let dayOfEra := (z - era * 146097).toNat
  let yearOfEra := (dayOfEra - dayOfEra / 1460 + dayOfEra / 36524 - dayOfEra / 146096) / 365
  let dayOfYear := dayOfEra - (365 * yearOfEra + yearOfEra / 4 - yearOfEra / 100)
  let shifted := (5 * dayOfYear + 2) / 153
  let month := if shifted < 10 then shifted + 3 else shifted - 9
  let year := era * 400 + yearOfEra
  (if month ≤ 2 then year + 1 else year, month, dayOfYear - (153 * shifted + 2) / 5 + 1)

/-- `new Date(ms).toISOString()` -/
def toISOString (ms : Int) : String :=
  let (year, month, day) := civil (ms.fdiv 86400000)
  let rest := (ms.fmod 86400000).toNat
  let yearText :=
    if 0 ≤ year ∧ year ≤ 9999 then padded 4 year.toNat
    else (if year < 0 then "-" else "+") ++ padded 6 year.natAbs
  yearText ++ "-" ++ padded 2 month ++ "-" ++ padded 2 day ++ "T" ++ padded 2 (rest / 3600000) ++
    ":" ++ padded 2 (rest / 60000 % 60) ++ ":" ++ padded 2 (rest / 1000 % 60) ++ "." ++
    padded 3 (rest % 1000) ++ "Z"

/-- `String(ms / 1000)`. Up to `maxTime` the decimals with three places are further apart
than the doubles, so the shortest text of the quotient is its exact decimal. -/
def secondsText (ms : Int) : String :=
  let fraction := padded 3 (ms.natAbs % 1000)
  let places := (fraction.toList.reverse.dropWhile (· == '0')).reverse
  (if ms < 0 then "-" else "") ++ toString (ms.natAbs / 1000) ++
    (if places.isEmpty then "" else "." ++ String.ofList places)

/-! ## JSON -/

def escaped (ch : Char) : List Char :=
  if ch == '"' then ['\\', '"']
  else if ch == '\\' then ['\\', '\\']
  else if ch.toNat == 8 then ['\\', 'b']
  else if ch.toNat == 9 then ['\\', 't']
  else if ch.toNat == 10 then ['\\', 'n']
  else if ch.toNat == 12 then ['\\', 'f']
  else if ch.toNat == 13 then ['\\', 'r']
  else if ch.toNat < 32 then
    ['\\', 'u', '0', '0', Nat.digitChar (ch.toNat / 16), Nat.digitChar (ch.toNat % 16)]
  else [ch]

/-- `JSON.stringify` of a text. -/
def quote (text : String) : String :=
  String.ofList ('"' :: text.toList.flatMap escaped ++ ['"'])

/-- `JSON.stringify` of an object whose values are given as JSON already. -/
def stringify (fields : List (String × String)) : String :=
  "\x7b" ++ ",".intercalate (fields.map fun (key, value) => quote key ++ ":" ++ value) ++ "\x7d"

/-- `JSON.stringify` of an array whose items are given as JSON already. -/
def stringifyArray (items : List String) : String := "[" ++ ",".intercalate items ++ "]"

/-! ## Sizes -/

@[simp] theorem byteLength_append (a b : String) :
    byteLength (a ++ b) = byteLength a + byteLength b :=
  String.utf8ByteSize_append

theorem byteLength_ofList (chars : List Char) :
    byteLength (String.ofList chars) = (chars.map Char.utf8Size).sum := by
  induction chars with
  | nil => rfl
  | cons ch chars ih =>
      have hcons : String.ofList (ch :: chars) = String.singleton ch ++ String.ofList chars := by
        rw [String.singleton_eq_ofList, ← String.ofList_append, List.singleton_append]
      rw [hcons, byteLength_append, ih, List.map_cons, List.sum_cons]
      exact congrArg (· + _) String.utf8ByteSize_singleton

theorem byteLength_ofList_le (chars : List Char) :
    byteLength (String.ofList chars) ≤ 4 * chars.length := by
  rw [byteLength_ofList]
  induction chars with
  | nil => exact Nat.le_refl 0
  | cons ch chars ih =>
      have hch := ch.utf8Size_le_four
      simp only [List.map_cons, List.sum_cons, List.length_cons]
      omega

theorem byteLength_toString_le {n : Nat} (h : n ≤ maxSafeInteger) :
    byteLength (toString n) ≤ 64 := by
  have hlen : (Nat.toDigits 10 n).length ≤ 16 :=
    (Nat.length_toDigits_le_iff (by decide) (by decide)).mpr (Nat.lt_of_le_of_lt h (by decide))
  calc byteLength (toString n) = byteLength (String.ofList (Nat.toDigits 10 n)) := rfl
    _ ≤ 4 * (Nat.toDigits 10 n).length := byteLength_ofList_le _
    _ ≤ 64 := by omega

theorem byteLength_intercalate_le (items : List String) :
    byteLength (",".intercalate items) ≤ (items.map fun item => byteLength item + 1).sum := by
  induction items with
  | nil =>
      rw [String.intercalate_nil]
      exact Nat.zero_le _
  | cons item items ih =>
      rw [List.map_cons, List.sum_cons]
      cases items with
      | nil =>
          rw [String.intercalate_singleton]
          exact Nat.le_add_right_of_le (Nat.le_succ _)
      | cons next items =>
          have hcomma : byteLength "," = 1 := by decide +kernel
          rw [String.intercalate_cons_cons, byteLength_append, byteLength_append, hcomma]
          exact Nat.add_le_add_left ih _

theorem byteLength_stringifyArray_le (items : List String) :
    byteLength (stringifyArray items) ≤ (items.map fun item => byteLength item + 1).sum + 2 := by
  have hopen : byteLength "[" = 1 := by decide +kernel
  have hclose : byteLength "]" = 1 := by decide +kernel
  have hitems := byteLength_intercalate_le items
  rw [stringifyArray, byteLength_append, byteLength_append, hopen, hclose]
  omega

theorem byteLength_stringify_le (fields : List (String × String)) :
    byteLength (stringify fields) ≤
      (fields.map fun field => byteLength (quote field.1) + byteLength field.2 + 2).sum + 2 := by
  have hopen : byteLength "\x7b" = 1 := by decide +kernel
  have hclose : byteLength "\x7d" = 1 := by decide +kernel
  have hcolon : byteLength ":" = 1 := by decide +kernel
  have hitem : ∀ field : String × String,
      byteLength (quote field.1 ++ ":" ++ field.2) + 1 =
        byteLength (quote field.1) + byteLength field.2 + 2 := by
    intro field
    rw [byteLength_append, byteLength_append, hcolon]
    omega
  have hitems :
      byteLength (",".intercalate (fields.map fun (key, value) => quote key ++ ":" ++ value)) ≤
      (fields.map fun field => byteLength (quote field.1) + byteLength field.2 + 2).sum := by
    refine (byteLength_intercalate_le _).trans_eq ?_
    rw [List.map_map]
    exact congrArg List.sum (List.map_congr_left fun field _ => hitem field)
  rw [stringify, byteLength_append, byteLength_append, hopen, hclose]
  omega

theorem length_escaped_le (ch : Char) : (escaped ch).length ≤ 6 := by
  unfold escaped
  repeat' split
  all_goals simp

theorem byteLength_quote (text : String) :
    byteLength (quote text) =
      ((text.toList.map fun ch => ((escaped ch).map Char.utf8Size).sum).sum) + 2 := by
  have hquote : ('"' : Char).utf8Size = 1 := by decide
  have hbody : ∀ chars : List Char, ((chars.flatMap escaped).map Char.utf8Size).sum =
      (chars.map fun ch => ((escaped ch).map Char.utf8Size).sum).sum := by
    intro chars
    induction chars with
    | nil => rfl
    | cons ch chars ih => simp [ih]
  rw [quote, byteLength_ofList]
  simp [hbody, hquote]
  omega

/-- A bound that needs nothing of the text: six characters of four bytes for each. -/
theorem byteLength_quote_le (text : String) :
    byteLength (quote text) ≤ 24 * text.toList.length + 2 := by
  have hbody : ∀ chars : List Char,
      (chars.map fun ch => ((escaped ch).map Char.utf8Size).sum).sum ≤ 24 * chars.length := by
    intro chars
    induction chars with
    | nil => exact Nat.le_refl 0
    | cons ch chars ih =>
        have hone := byteLength_ofList_le (escaped ch)
        rw [byteLength_ofList] at hone
        have hsix := length_escaped_le ch
        simp only [List.map_cons, List.sum_cons, List.length_cons]
        omega
  rw [byteLength_quote]
  have hchars := hbody text.toList
  omega

end Js
