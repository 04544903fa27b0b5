-- SUMMARY: A search with a list of what is left: in the end it has met all, each once.
import Mathlib.Data.List.Nodup
import Mathlib.Logic.Relation

/-!
# Worklists

A search starts at a root. It takes one node at a time from the list of those that are still
to be expanded, meets its successors, and adds the ones that are to be expanded themselves.
Where every node is the successor of one node at most, nothing is met twice, and so the
search needs no set of visited nodes.
-/
namespace Worklist

variable {α : Type*}

/-- The nodes that a search from `root` can meet: a node that is
expanded leads to its successors. -/
def Reached (expanded : α → Bool) (succ : α → List α) (root node : α) : Prop :=
  Relation.ReflTransGen (fun a b => expanded a = true ∧ b ∈ succ a) root node

/-- Among the nodes that the search can meet, each has one parent at most, and the root has none. -/
structure Tree (expanded : α → Bool) (succ : α → List α) (root : α) : Prop where
  nodup : ∀ a, Reached expanded succ root a → (succ a).Nodup
  parent : ∀ a a', Reached expanded succ root a → Reached expanded succ root a' →
    ∀ b ∈ succ a, b ∈ succ a' → a = a'
  root : ∀ a, Reached expanded succ root a → root ∉ succ a

/-- What the search has met after it expanded `done`. -/
def met (succ : α → List α) (root : α) (done : List α) : List α := root :: done.flatMap succ

/-- What holds between two turns of the search: what is to be expanded of
what was met is done or left. -/
structure Frontier (expanded : α → Bool) (succ : α → List α) (root : α) (done pending : List α) :
    Prop where
  perm : (done ++ pending).Perm ((met succ root done).filter expanded)
  reached : ∀ a ∈ met succ root done, Reached expanded succ root a
  nodup : (met succ root done).Nodup

section
variable {expanded : α → Bool} {succ : α → List α} {root top b : α} {done pending added : List α}

theorem mem_met : b ∈ met succ root done ↔ b = root ∨ ∃ a ∈ done, b ∈ succ a := by
  rw [met, List.mem_cons, List.mem_flatMap]

theorem met_concat (done : List α) (top : α) :
    met succ root (done ++ [top]) = met succ root done ++ succ top := by
  rw [met, met, List.flatMap_append, List.flatMap_singleton, List.cons_append]

/-- The search begins with the root, which is expanded. -/
theorem Frontier.start (hroot : expanded root = true) : Frontier expanded succ root [] [root] where
  perm := by
    rw [met, List.flatMap_nil, List.filter_cons_of_pos hroot, List.filter_nil, List.nil_append]
  reached a ha := by
    obtain rfl | ⟨_, hnil, -⟩ := mem_met.mp ha
    · exact .refl
    · exact absurd hnil List.not_mem_nil
  nodup := List.nodup_singleton root

section
variable (h : Frontier expanded succ root done (top :: pending))
include h

theorem Frontier.top_met : top ∈ met succ root done ∧ expanded top = true :=
  List.mem_filter.mp (h.perm.subset (List.mem_append_right done List.mem_cons_self))

theorem Frontier.top_not_done : top ∉ done := by
  have hnodup : (done ++ top :: pending).Nodup := h.perm.nodup_iff.mpr (h.nodup.filter _)
  exact fun hdone => (List.nodup_append'.mp hnodup).2.2 hdone List.mem_cons_self

/-- No successor of the node in hand was met before. -/
theorem Frontier.unmet (htree : Tree expanded succ root) (hb : b ∈ succ top) :
    b ∉ met succ root done := by
  intro hmet
  have htop := h.reached top h.top_met.1
  obtain rfl | ⟨a, ha, hba⟩ := mem_met.mp hmet
  · exact htree.root top htop hb
  · have hreached := h.reached a (List.mem_filter.mp (h.perm.subset (List.mem_append_left _ ha))).1
    exact h.top_not_done (htree.parent a top hreached htop b hba hb ▸ ha)

/-- One turn: the successors of the node in hand are met, and those to be expanded are added. -/
theorem Frontier.turn (htree : Tree expanded succ root)
    (hadded : added.Perm ((succ top).filter expanded)) :
    Frontier expanded succ root (done ++ [top]) (added ++ pending) where
  perm := by
    rw [met_concat, List.filter_append, List.append_assoc]
    have hmoved : (top :: (added ++ pending)).Perm (top :: pending ++ added) :=
      (List.perm_append_comm).cons top
    exact ((hmoved.append_left done).trans (by rw [← List.append_assoc])).trans
      (h.perm.append hadded)
  reached a ha := by
    rw [met_concat] at ha
    rcases List.mem_append.mp ha with ha | ha
    · exact h.reached a ha
    · exact .tail (h.reached top h.top_met.1) ⟨h.top_met.2, ha⟩
  nodup := by
    rw [met_concat]
    exact List.nodup_append'.mpr ⟨h.nodup, htree.nodup top (h.reached top h.top_met.1),
      fun a ha hsucc => h.unmet htree hsucc ha⟩

end

/-- When nothing is left to expand, the search has met all that it can reach. -/
theorem Frontier.finish (h : Frontier expanded succ root done []) (node : α) :
    node ∈ met succ root done ↔ Reached expanded succ root node := by
  refine ⟨h.reached node, fun hreached => ?_⟩
  induction hreached with
  | refl => exact List.mem_cons_self
  | @tail a b _ hlead ih =>
      have hdone := h.perm.symm.subset (List.mem_filter.mpr ⟨ih, hlead.1⟩)
      rw [List.append_nil] at hdone
      exact mem_met.mpr (.inr ⟨a, hdone, hlead.2⟩)

end

end Worklist
