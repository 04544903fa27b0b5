-- SUMMARY: Lines of a text that arrives part by part: what is ended and what is pending.
import Mathlib.Data.List.Basic

/-!
# Lines

A text is the lines that are ended and the rest behind the last line end. What arrives next
continues the rest. A reading of texts that shows a line end for every line end reads line by line.
-/
namespace Lines

section
variable {α : Type} [BEq α]

/-- The lines that are ended. -/
def ended (sep : α) (text : List α) : List (List α) := (text.splitOn sep).dropLast

/-- What stands behind the last line end. -/
def rest (sep : α) (text : List α) : List α :=
  (text.splitOn sep).getLast (List.splitOn_ne_nil sep text)

theorem splitOn_eq (sep : α) (text : List α) :
    text.splitOn sep = ended sep text ++ [rest sep text] :=
  (List.dropLast_concat_getLast (List.splitOn_ne_nil sep text)).symm

variable [LawfulBEq α] {sep : α} {text more front : List α}

/-- A text has no line end, or begins with a line. -/
theorem induction {motive : List α → Prop} (sep : α) (last : ∀ text, sep ∉ text → motive text)
    (line : ∀ front more, sep ∉ front → motive more → motive (front ++ sep :: more))
    (text : List α) : motive text := by
  induction hlength : text.length using Nat.strongRecOn generalizing text with
  | ind n ih =>
      by_cases hmem : sep ∈ text
      · obtain ⟨front, more, rfl, hfree⟩ := List.eq_append_cons_of_mem hmem
        refine line front more hfree (ih more.length ?_ more rfl)
        rw [← hlength, List.length_append, List.length_cons]
        omega
      · exact last text hmem

/-! ## The first line end -/

theorem index_none (h : sep ∉ text) : text.findIdx? (· == sep) = none :=
  List.findIdx?_eq_none_iff.mpr fun _ hmem => beq_false_of_ne fun heq => h (heq ▸ hmem)

theorem index_line (h : sep ∉ front) :
    (front ++ sep :: more).findIdx? (· == sep) = some front.length := by
  rw [List.findIdx?_append, index_none h, List.findIdx?_cons]
  simp

omit [LawfulBEq α] [BEq α] in
theorem drop_line (front more : List α) :
    (front ++ sep :: more).drop (front.length + 1) = more := by
  rw [← List.drop_drop, List.drop_left, List.drop_succ_cons, List.drop_zero]

theorem ended_of_not_mem (h : sep ∉ text) : ended sep text = [] := by
  rw [ended, List.splitOn_eq_singleton h]
  rfl

theorem rest_of_not_mem (h : sep ∉ text) : rest sep text = text := by
  have hsplit := splitOn_eq sep text
  rw [ended_of_not_mem h, List.splitOn_eq_singleton h] at hsplit
  exact (List.cons.inj hsplit).1.symm

theorem line_split (h : sep ∉ front) :
    ended sep (front ++ sep :: more) = front :: ended sep more ∧
    rest sep (front ++ sep :: more) = rest sep more := by
  have hsplit : (front ++ sep :: more).splitOn sep = front :: more.splitOn sep :=
    List.splitOn_append_cons_self_of_not_mem h more
  rw [splitOn_eq sep more, splitOn_eq, ← List.cons_append] at hsplit
  obtain ⟨hended, hrest⟩ := List.append_inj' hsplit rfl
  exact ⟨hended, (List.cons.inj hrest).1⟩

theorem ended_line (h : sep ∉ front) : ended sep (front ++ sep :: more) = front :: ended sep more :=
  (line_split h).1

theorem rest_line (h : sep ∉ front) : rest sep (front ++ sep :: more) = rest sep more :=
  (line_split h).2

theorem not_mem_rest : sep ∉ rest sep text := by
  induction text using induction sep with
  | last text h => rwa [rest_of_not_mem h]
  | line front more h ih => rwa [rest_line h]

/-- Nothing is left exactly if the text ends with a line end. -/
theorem rest_eq_nil : rest sep text = [] ↔ text = [] ∨ ∃ front, text = front ++ [sep] := by
  constructor
  · intro h
    induction text using induction sep with
    | last text hfree => exact .inl (by rwa [rest_of_not_mem hfree] at h)
    | line front more hfree ih =>
        rw [rest_line hfree] at h
        rcases ih h with rfl | ⟨last, rfl⟩
        · exact .inr ⟨front, rfl⟩
        · exact .inr ⟨front ++ sep :: last, by rw [List.append_assoc, List.cons_append]⟩
  · rintro (rfl | ⟨front, rfl⟩)
    · exact rest_of_not_mem List.not_mem_nil
    · induction front using induction sep with
      | last front hfree => rw [rest_line hfree, rest_of_not_mem List.not_mem_nil]
      | line front more hfree ih => rwa [List.append_assoc, List.cons_append, rest_line hfree]

theorem ended_append (text more : List α) :
    ended sep (text ++ more) = ended sep text ++ ended sep (rest sep text ++ more) := by
  induction text using induction sep with
  | last text h => rw [ended_of_not_mem h, rest_of_not_mem h, List.nil_append]
  | line front tail h ih =>
      rw [List.append_assoc, List.cons_append, ended_line h, ended_line h, rest_line h,
        ih, List.cons_append]

theorem rest_append (text more : List α) :
    rest sep (text ++ more) = rest sep (rest sep text ++ more) := by
  induction text using induction sep with
  | last text h => rw [rest_of_not_mem h]
  | line front tail h ih => rw [List.append_assoc, List.cons_append, rest_line h, rest_line h, ih]

end

/-! ## Readings -/

section
variable {α β γ : Type} {sep : α} {sep' : β} {sep'' : γ} {read : List α → List β}

/-- A reading that shows a line end for every line end and for nothing else. -/
structure Linewise (sep : α) (sep' : β) (read : List α → List β) : Prop where
  line : ∀ front more, read (front ++ sep :: more) = read front ++ sep' :: read more
  free : ∀ text, sep ∉ text → sep' ∉ read text

namespace Linewise

theorem comp {read' : List β → List γ} (h' : Linewise sep' sep'' read')
    (h : Linewise sep sep' read) :
    Linewise sep sep'' (read' ∘ read) where
  line front more := by
    dsimp only [Function.comp_apply]
    rw [h.line, h'.line]
  free text hfree := h'.free _ (h.free text hfree)

variable [BEq α] [LawfulBEq α] [BEq β] [LawfulBEq β]

theorem ended (h : Linewise sep sep' read) (text : List α) :
    ended sep' (read text) = (ended sep text).map read := by
  induction text using induction sep with
  | last text hfree =>
      rw [ended_of_not_mem hfree, ended_of_not_mem (h.free text hfree), List.map_nil]
  | line front more hfree ih =>
      rw [h.line, ended_line (h.free front hfree), ended_line hfree, ih, List.map_cons]

theorem rest (h : Linewise sep sep' read) (text : List α) :
    rest sep' (read text) = read (rest sep text) := by
  induction text using induction sep with
  | last text hfree => rw [rest_of_not_mem hfree, rest_of_not_mem (h.free text hfree)]
  | line front more hfree ih => rw [h.line, rest_line (h.free front hfree), rest_line hfree, ih]

end Linewise

end

end Lines
