-- SUMMARY: JSON values, and what a lookup in an object that was just written finds.
import Mathlib.Data.Rat.Defs
import Pluton.Js

/-!
# JSON values

A value as it arrives. An object is the list of its members; a member that is
`undefined` is not written. The numbers of the language are rationals.
-/

inductive Json where
  | null
  | bool (value : Bool)
  | num (value : Rat)
  | str (text : String)
  | arr (items : List Json)
  | obj (fields : List (String × Json))

namespace Json

/-! ## Equality -/

mutual

/-- Whether two values are the same, decided member by member. -/
def decEq : (value other : Json) → Decidable (value = other)
  | .null, .null => .isTrue rfl
  | .bool b, .bool b' =>
      if h : b = b' then .isTrue (h ▸ rfl) else .isFalse fun heq => h (Json.bool.inj heq)
  | .num n, .num n' =>
      if h : n = n' then .isTrue (h ▸ rfl) else .isFalse fun heq => h (Json.num.inj heq)
  | .str t, .str t' =>
      if h : t = t' then .isTrue (h ▸ rfl) else .isFalse fun heq => h (Json.str.inj heq)
  | .arr items, .arr items' =>
      match decEqItems items items' with
      | .isTrue h => .isTrue (h ▸ rfl)
      | .isFalse h => .isFalse fun heq => h (Json.arr.inj heq)
  | .obj fields, .obj fields' =>
      match decEqFields fields fields' with
      | .isTrue h => .isTrue (h ▸ rfl)
      | .isFalse h => .isFalse fun heq => h (Json.obj.inj heq)
  | .null, .bool _ | .null, .num _ | .null, .str _ | .null, .arr _ | .null, .obj _ => .isFalse nofun
  | .bool _, .null | .bool _, .num _ | .bool _, .str _ | .bool _, .arr _ | .bool _,
      .obj _ => .isFalse nofun
  | .num _, .null | .num _, .bool _ | .num _, .str _ | .num _, .arr _ | .num _,
      .obj _ => .isFalse nofun
  | .str _, .null | .str _, .bool _ | .str _, .num _ | .str _, .arr _ | .str _,
      .obj _ => .isFalse nofun
  | .arr _, .null | .arr _, .bool _ | .arr _, .num _ | .arr _, .str _ | .arr _,
      .obj _ => .isFalse nofun
  | .obj _, .null | .obj _, .bool _ | .obj _, .num _ | .obj _, .str _ | .obj _,
      .arr _ => .isFalse nofun

def decEqItems : (items items' : List Json) → Decidable (items = items')
  | [], [] => .isTrue rfl
  | [], _ :: _ => .isFalse nofun
  | _ :: _, [] => .isFalse nofun
  | value :: items, value' :: items' =>
      match decEq value value', decEqItems items items' with
      | .isTrue h, .isTrue hs => .isTrue (h ▸ hs ▸ rfl)
      | .isFalse h, _ => .isFalse fun heq => h (List.cons.inj heq).1
      | _, .isFalse hs => .isFalse fun heq => hs (List.cons.inj heq).2

def decEqFields : (fields fields' : List (String × Json)) → Decidable (fields = fields')
  | [], [] => .isTrue rfl
  | [], _ :: _ => .isFalse nofun
  | _ :: _, [] => .isFalse nofun
  | (key, value) :: fields, (key', value') :: fields' =>
      match (inferInstance : Decidable (key = key')), decEq value value',
      decEqFields fields fields' with
      | .isTrue hkey, .isTrue h, .isTrue hs => .isTrue (hkey ▸ h ▸ hs ▸ rfl)
      | .isFalse hkey, _, _ => .isFalse fun heq => hkey (Prod.mk.inj (List.cons.inj heq).1).1
      | _, .isFalse h, _ => .isFalse fun heq => h (Prod.mk.inj (List.cons.inj heq).1).2
      | _, _, .isFalse hs => .isFalse fun heq => hs (List.cons.inj heq).2

end

instance : DecidableEq Json := decEq

/-! ## Members -/

abbrev Fields := List (String × Json)

/-- `object[key]`, which is `undefined` when there is no such member. -/
def field (fields : Fields) (key : String) : Option Json := fields.lookup key

/-- A member that is written unless it is `undefined`. -/
def optional (key : String) (value : Option Json) : Fields :=
  value.toList.map fun held => (key, held)

def nat (n : Nat) : Json := .num n

def texts (items : List String) : Json := .arr (items.map .str)

/-- `value === n` -/
def isNat (n : Nat) : Option Json → Bool
  | some (.num value) => value == n
  | _ => false

/-- `value === text` -/
def isStr (text : String) : Option Json → Bool
  | some (.str held) => held == text
  | _ => false

/-- `value === b` -/
def isBool (b : Bool) : Option Json → Bool
  | some (.bool held) => held == b
  | _ => false

/-- `Number.isSafeInteger(value) && min <= value && value <= max` of a number. -/
def inRange (min max : Nat) (value : Rat) : Bool :=
  value.den == 1 && value.num.natAbs ≤ Js.maxSafeInteger && min ≤ value.num && value.num ≤ max

/-- `Object.keys(object).some(key => !allowed.includes(key))` -/
def hasOther (allowed : List String) (fields : Fields) : Bool :=
  fields.any fun member => !allowed.contains member.1

/-! ## Lookups -/

variable {fields fields' : Fields} {key other text : String} {value : Option Json}
  {allowed : List String}

@[simp] theorem field_nil : field [] key = none := rfl

@[simp] theorem field_cons {held : Json} :
    field ((other, held) :: fields) key = if key == other then some held else field fields key := by
  unfold field
  rw [List.lookup_cons]
  cases key == other <;> rfl

@[simp] theorem field_append :
    field (fields ++ fields') key = (field fields key).or (field fields' key) := by
  unfold field
  exact List.lookup_append

@[simp] theorem field_optional :
    field (optional other value) key = if key == other then value else none := by
  cases value with
  | none => simp [optional]
  | some held => simp [optional]

@[simp] theorem hasOther_nil : hasOther allowed [] = false := rfl

@[simp] theorem hasOther_cons {held : Json} :
    hasOther allowed ((key, held) :: fields) = (!allowed.contains key || hasOther allowed fields) :=
  rfl

@[simp] theorem hasOther_append :
    hasOther allowed (fields ++ fields') = (hasOther allowed fields || hasOther allowed fields') :=
  List.any_append

@[simp] theorem hasOther_optional :
    hasOther allowed (optional key value) = (value.isSome && !allowed.contains key) := by
  cases value with
  | none => rfl
  | some held => simp [optional]

/-! ## Values -/

@[simp] theorem isNat_nat {n m : Nat} : isNat n (some (nat m)) = (m == n) := by
  have hcast : ((m : Rat) == (n : Rat)) = (m == n) := by
    rw [Bool.eq_iff_iff]
    simp
  exact hcast

@[simp] theorem isStr_str {held : String} : isStr text (some (.str held)) = (held == text) := rfl

@[simp] theorem isBool_bool {b held : Bool} : isBool b (some (.bool held)) = (held == b) := rfl

theorem inRange_nat {min max n : Nat} (hsafe : n ≤ Js.maxSafeInteger) (hmin : min ≤ n)
    (hmax : n ≤ max) :
    inRange min max n = true := by
  unfold inRange
  simp [hsafe, hmin, hmax]

end Json
