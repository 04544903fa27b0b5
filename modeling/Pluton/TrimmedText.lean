-- SUMMARY: What `trim` leaves: a text without white space at its ends, which it leaves as it is.
import Mathlib.Data.List.DropRight
import Pluton.Js

/-!
# Trimmed texts
-/
namespace Js

theorem trim_toList (text : String) :
    (trim text).toList = (text.toList.dropWhile isWhitespace).rdropWhile isWhitespace := by
  unfold trim List.rdropWhile
  exact String.toList_ofList

/-- No white space at either end. -/
structure Trimmed (chars : List Char) : Prop where
  head : ∀ ch ∈ chars.head?, isWhitespace ch = false
  last : ∀ ch ∈ chars.getLast?, isWhitespace ch = false

theorem head?_of_isPrefixOf {α : Type} {l l' : List α} (h : l <+: l') {a : α} (ha : a ∈ l.head?) :
    a ∈ l'.head? := by
  obtain ⟨rest, rfl⟩ := h
  cases l with
  | nil => cases ha
  | cons b l => exact ha

theorem trimmed_trim (text : String) : Trimmed (trim text).toList := by
  rw [trim_toList]
  constructor
  · intro ch hch
    have hnot := List.head?_dropWhile_not isWhitespace text.toList
    have hhead := head?_of_isPrefixOf (List.rdropWhile_prefix isWhitespace _) hch
    rw [Option.mem_def.mp hhead] at hnot
    exact hnot
  · intro ch hch
    unfold List.rdropWhile at hch
    rw [List.getLast?_reverse] at hch
    have hnot := List.head?_dropWhile_not isWhitespace (text.toList.dropWhile isWhitespace).reverse
    rw [Option.mem_def.mp hch] at hnot
    exact hnot

theorem trim_of_trimmed {text : String} (h : Trimmed text.toList) : trim text = text := by
  apply String.toList_inj.mp
  rw [trim_toList]
  have hhead : text.toList.dropWhile isWhitespace = text.toList := by
    cases hchars : text.toList with
    | nil => rfl
    | cons ch rest => exact List.dropWhile_cons_of_neg (by simp [h.head ch (by rw [hchars]; rfl)])
  rw [hhead]
  apply List.rdropWhile_eq_self_iff.mpr
  intro hne
  simp [h.last _ (List.getLast?_eq_getLast_of_ne_nil hne)]

theorem trim_sublist (text : String) : (trim text).toList.Sublist text.toList := by
  rw [trim_toList]
  exact (List.rdropWhile_prefix isWhitespace _).sublist.trans (List.dropWhile_sublist isWhitespace)

end Js
