-- SUMMARY: Logs whose entries are judged by what came before them.
import Mathlib.Data.List.Basic

/-!
# Logs

A log grows at its end. `Justified` says that every entry may be there after the entries
before it, `Since` that an entry was seen and that none of a kind came after it.
-/
namespace Log

variable {α : Type} {P : List α → α → Prop} {Q bad : α → Prop} {log rest : List α} {x : α}

/-- Every entry of the log is one that may come after those before it. -/
def Justified (P : List α → α → Prop) (log : List α) : Prop :=
  ∀ before x after, log = before ++ x :: after → P before x

theorem justified_nil : Justified P [] := by
  intro before x after h
  simp at h

theorem Justified.concat (h : Justified P log) (hx : P log x) : Justified P (log ++ [x]) := by
  intro before y after hlog
  rcases List.eq_nil_or_concat after with rfl | ⟨after', z, rfl⟩
  · obtain ⟨rfl, hy⟩ := List.append_inj' hlog rfl
    obtain rfl := List.head_eq_of_cons_eq hy
    exact hx
  · rw [List.concat_eq_append, ← List.cons_append, ← List.append_assoc] at hlog
    exact h before y after' (List.append_inj_left' hlog rfl)

/-- Some entry satisfies `Q`, and no `bad` one came after it. -/
def Since (Q bad : α → Prop) (log : List α) : Prop :=
  ∃ before x after, log = before ++ x :: after ∧ Q x ∧ ∀ y ∈ after, ¬bad y

theorem since_concat (hx : Q x) : Since Q bad (log ++ [x]) :=
  ⟨log, x, [], rfl, hx, nofun⟩

theorem Since.append (h : Since Q bad log) (hrest : ∀ y ∈ rest, ¬bad y) :
    Since Q bad (log ++ rest) := by
  obtain ⟨before, x, after, rfl, hx, hafter⟩ := h
  refine ⟨before, x, after ++ rest, by rw [List.append_assoc, List.cons_append], hx, fun y hy => ?_⟩
  rcases List.mem_append.mp hy with hy | hy
  · exact hafter y hy
  · exact hrest y hy

end Log
