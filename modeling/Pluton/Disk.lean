-- SUMMARY: Directory entries whose last changes a crash may undo, and what may survive.
import Mathlib.Data.List.GetD

/-!
# Directory entries and crashes

A process sees the last change of a directory entry at once; the disk has it for sure
only after the directory was synced. A crash leaves the entry as it was after any of
the changes since the last sync, each entry on its own.
-/
namespace Disk

/-- One name of a directory: the file that is seen, and what a crash may bring back. -/
structure Entry (α : Type) where
  now : Option α
  before : List (Option α)

/-- How the replacement of a file ended: it is on disk, it never took the name, or it
took the name and the sync of the directory failed. -/
inductive Written where
  | durable
  | lost
  | unsynced
  deriving DecidableEq

namespace Entry

variable {α : Type} {P Q : Option α → Prop} {e : Entry α}

/-- An entry that no crash changes. -/
def settled (file : Option α) : Entry α := ⟨file, []⟩

/-- A creation, a replacement or an unlink. -/
def set (e : Entry α) (file : Option α) : Entry α := ⟨file, e.now :: e.before⟩

/-- New content for the file that is there, under the same name. -/
def refill (e : Entry α) (file : α) : Entry α := ⟨some file, e.before⟩

def sync (e : Entry α) : Entry α := settled e.now

/-- What a crash leaves; `pick` counts the changes that it undoes. -/
def crash (e : Entry α) (pick : Nat) : Entry α := settled ((e.now :: e.before).getD pick e.now)

/-- Write aside, rename, sync. -/
def replace (e : Entry α) (file : α) : Written → Entry α
  | .durable => settled (some file)
  | .lost => e
  | .unsynced => e.set (some file)

/-- `P` holds of whatever a crash leaves. -/
def All (e : Entry α) (P : Option α → Prop) : Prop := P e.now ∧ ∀ file ∈ e.before, P file

@[simp] theorem now_settled (file : Option α) : (settled file).now = file := rfl

@[simp] theorem before_settled (file : Option α) : (settled file).before = [] := rfl

@[simp] theorem now_set (file : Option α) : (e.set file).now = file := rfl

@[simp] theorem now_sync : e.sync.now = e.now := rfl

@[simp] theorem before_sync : e.sync.before = [] := rfl

@[simp] theorem sync_settled (file : Option α) : (settled file).sync = settled file := rfl

@[simp] theorem before_crash (pick : Nat) : (e.crash pick).before = [] := rfl

theorem eq_settled (h : e.before = []) : e = settled e.now := by
  cases e
  cases h
  rfl

@[simp] theorem crash_settled (file : Option α) (pick : Nat) :
    (settled file).crash pick = settled file := by
  cases pick <;> simp [crash, settled]

@[simp] theorem all_settled {file : Option α} : (settled file).All P ↔ P file := by
  simp [All]

@[simp] theorem all_set {file : Option α} : (e.set file).All P ↔ P file ∧ e.All P := by
  simp [All, set]

theorem All.imp (h : e.All P) (hPQ : ∀ file, P file → Q file) : e.All Q :=
  ⟨hPQ _ h.1, fun file hfile => hPQ _ (h.2 file hfile)⟩

theorem All.sync (h : e.All P) : e.sync.All P := all_settled.mpr h.1

theorem All.refill {file : α} (h : e.All P) (hfile : P (some file)) : (e.refill file).All P :=
  ⟨hfile, h.2⟩

theorem All.crash (h : e.All P) (pick : Nat) : (e.crash pick).All P := by
  refine all_settled.mpr ?_
  cases pick with
  | zero => exact h.1
  | succ pick =>
      rw [List.getD_cons_succ]
      by_cases hpick : pick < e.before.length
      · rw [List.getD_eq_getElem _ _ hpick]
        exact h.2 _ (List.getElem_mem hpick)
      · rw [List.getD_eq_default _ _ (Nat.le_of_not_lt hpick)]
        exact h.1

theorem All.replace {file : α} (h : e.All P) (hfile : P (some file)) (w : Written) :
    (e.replace file w).All P := by
  cases w with
  | durable => exact all_settled.mpr hfile
  | lost => exact h
  | unsynced => exact all_set.mpr ⟨hfile, h⟩

end Entry

end Disk
