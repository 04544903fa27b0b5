-- SUMMARY: Selections in a forest: complete subtrees, what they decode to, and a toggled subtree.
import Mathlib.Data.Set.Basic
import Mathlib.Order.Defs.Unbundled

/-!
# Selections in a forest

`r a b` says that `a` is `b` or above it. A selection is kept as its complete subtrees
only: `kept` is what can be recovered from them, that is the members of the complete
subtrees and what is above these.
-/
namespace Forest

variable {α : Type*} (r : α → α → Prop) (entries chosen : Set α)

/-- All that is at or below `f` is chosen. -/
def Complete (f : α) : Prop := ∀ c ∈ entries, r f c → c ∈ chosen

/-- The entries at or above a complete one. -/
def kept : Set α := {f | f ∈ entries ∧ ∃ c ∈ entries, r f c ∧ Complete r entries chosen c}

/-- The selections that are their own `kept`: what is above a chosen entry is chosen, and
there is a complete subtree at or below each. -/
structure Stable : Prop where
  subset : ∀ f ∈ chosen, f ∈ entries
  above : ∀ d ∈ entries, ∀ c ∈ chosen, r d c → d ∈ chosen
  below : ∀ f ∈ chosen, ∃ c ∈ entries, r f c ∧ Complete r entries chosen c

/-- What is left of a selection when the subtree at `p` is removed, if it is complete, or
added. -/
def flipped (p : α) : Set α :=
  {f | f ∈ entries ∧ (Complete r entries chosen p ∧ f ∈ chosen ∧ ¬ r p f ∨
    ¬ Complete r entries chosen p ∧ (f ∈ chosen ∨ r p f))}

/-- The entries at or above those of `chosen`. -/
def raised : Set α := {f | f ∈ entries ∧ ∃ c ∈ chosen, r f c}

/-- The selection after the subtree at `p` was toggled. -/
def toggled (p : α) : Set α := kept r entries (raised r entries (flipped r entries chosen p))

variable {r entries chosen} {f c p : α}

/-- Away from `p` nothing changes. -/
theorem mem_flipped_of_apart (hf : f ∈ entries) (hpf : ¬ r p f) :
    f ∈ flipped r entries chosen p ↔ f ∈ chosen := by
  constructor
  · rintro ⟨-, ⟨-, hchosen, -⟩ | ⟨-, hchosen | hbelow⟩⟩
    · exact hchosen
    · exact hchosen
    · exact absurd hbelow hpf
  · intro hchosen
    by_cases hcomplete : Complete r entries chosen p
    · exact ⟨hf, .inl ⟨hcomplete, hchosen, hpf⟩⟩
    · exact ⟨hf, .inr ⟨hcomplete, .inl hchosen⟩⟩

variable [IsPreorder α r]

theorem Complete.mono (h : Complete r entries chosen f) (hc : r f c) :
    Complete r entries chosen c :=
  fun e he hce => h e he (trans_of r hc hce)

theorem mem_kept_of_complete (hf : f ∈ entries) (h : Complete r entries chosen f) :
    f ∈ kept r entries chosen :=
  ⟨hf, f, hf, refl_of r f, h⟩

theorem Complete.kept (h : Complete r entries chosen f) :
    Complete r entries (kept r entries chosen) f :=
  fun _ he hfe => mem_kept_of_complete he (h.mono hfe)

theorem kept_above {d : α} (hd : d ∈ entries) (hf : f ∈ kept r entries chosen) (h : r d f) :
    d ∈ kept r entries chosen := by
  obtain ⟨-, c, hc, hfc, hcomplete⟩ := hf
  exact ⟨hd, c, hc, trans_of r h hfc, hcomplete⟩

/-- What is recovered from a selection is recovered from itself. -/
theorem stable_kept : Stable r entries (kept r entries chosen) where
  subset _ hf := hf.1
  above _ hd _ hc h := kept_above hd hc h
  below := by
    rintro f ⟨-, c, hc, hfc, hcomplete⟩
    exact ⟨c, hc, hfc, hcomplete.kept⟩

theorem stable_univ : Stable r entries entries where
  subset _ hf := hf
  above _ hd _ _ _ := hd
  below f hf := ⟨f, hf, refl_of r f, fun _ hc _ => hc⟩

/-- What is above entries of which all that is below is chosen adds nothing complete. -/
theorem kept_subset (habove : ∀ d ∈ entries, ∀ c ∈ chosen, r d c → d ∈ chosen)
    (hf : f ∈ kept r entries chosen) :
    f ∈ chosen := by
  obtain ⟨hentry, c, hc, hfc, hcomplete⟩ := hf
  exact habove f hentry c (hcomplete c hc (refl_of r c)) hfc

theorem raised_above : ∀ d ∈ entries, ∀ c ∈ raised r entries chosen, r d c →
    d ∈ raised r entries chosen := by
  rintro d hd c ⟨-, e, he, hce⟩ hdc
  exact ⟨hd, e, he, trans_of r hdc hce⟩

theorem mem_raised_of_mem (hf : f ∈ entries) (h : f ∈ chosen) : f ∈ raised r entries chosen :=
  ⟨hf, f, h, refl_of r f⟩

/-! ## A toggled subtree -/

/-- The entries at or below `p` are selected exactly if they were not all selected. -/
theorem mem_toggled_of_below (hf : f ∈ entries) (hpf : r p f) :
    f ∈ toggled r entries chosen p ↔ ¬ Complete r entries chosen p := by
  by_cases hcomplete : Complete r entries chosen p
  · refine iff_of_false (fun hmem => ?_) (not_not_intro hcomplete)
    obtain ⟨-, c, ⟨-, hflip⟩, hfc⟩ := kept_subset raised_above hmem
    rcases hflip with ⟨-, -, hnot⟩ | ⟨hnot, -⟩
    · exact hnot (trans_of r hpf hfc)
    · exact hnot hcomplete
  · refine iff_of_true (mem_kept_of_complete hf fun c hc hfc => mem_raised_of_mem hc ?_) hcomplete
    exact ⟨hc, .inr ⟨hcomplete, .inr (trans_of r hpf hfc)⟩⟩

/-- Of two things above a third, one is above the other. -/
def Linear (r : α → α → Prop) : Prop := ∀ ⦃a b c⦄, r a c → r b c → r a b ∨ r b a

/-- What is below an entry apart from `p` is apart from `p`. -/
theorem apart_below (hlinear : Linear r) (hpf : ¬ r p f) (hfp : ¬ r f p) (hfc : r f c) :
    ¬ r p c ∧ ¬ r c p := by
  refine ⟨fun hpc => ?_, fun hcp => hfp (trans_of r hfc hcp)⟩
  rcases hlinear hpc hfc with h | h
  · exact hpf h
  · exact hfp h

theorem mem_toggled_of_apart (hlinear : Linear r) (hstable : Stable r entries chosen)
    (hf : f ∈ entries) (hpf : ¬ r p f) (hfp : ¬ r f p) :
    f ∈ toggled r entries chosen p ↔ f ∈ chosen := by
  constructor
  · intro hmem
    obtain ⟨-, c, hflip, hfc⟩ := kept_subset raised_above hmem
    have hc := (mem_flipped_of_apart hflip.1 (apart_below hlinear hpf hfp hfc).1).mp hflip
    exact hstable.above f hf c hc hfc
  · intro hchosen
    obtain ⟨c, hc, hfc, hcomplete⟩ := hstable.below f hchosen
    refine ⟨hf, c, hc, hfc, fun e he hce => mem_raised_of_mem he ?_⟩
    exact (mem_flipped_of_apart he (apart_below hlinear hpf hfp (trans_of r hfc hce)).1).mpr
      (hcomplete e he hce)

/-- What is above `p` is selected exactly if something strictly below it is. -/
theorem mem_toggled_of_above {e : α} (he : e ∈ entries) (hpe : r p e) (hf : f ∈ entries)
    (hfp : r f p) (hpf : ¬ r p f) :
    f ∈ toggled r entries chosen p ↔
    ∃ c ∈ entries, r f c ∧ ¬ r c f ∧ c ∈ toggled r entries chosen p := by
  constructor
  · rintro ⟨-, c, hc, hfc, hcomplete⟩
    by_cases hcf : r c f
    · have hbelow : r c e := trans_of r hcf (trans_of r hfp hpe)
      exact ⟨e, he, trans_of r hfp hpe, fun hef => hpf (trans_of r hpe hef),
        mem_kept_of_complete he (hcomplete.mono hbelow)⟩
    · exact ⟨c, hc, hfc, hcf, mem_kept_of_complete hc hcomplete⟩
  · rintro ⟨c, -, hfc, -, hmem⟩
    exact kept_above hf hmem hfc

theorem Stable.raised (h : Stable r entries chosen) : raised r entries chosen = chosen := by
  ext f
  refine ⟨?_, fun hf => mem_raised_of_mem (h.subset f hf) hf⟩
  rintro ⟨hf, c, hc, hfc⟩
  exact h.above f hf c hc hfc

theorem Stable.kept (h : Stable r entries chosen) : Forest.kept r entries chosen = chosen := by
  ext f
  refine ⟨kept_subset h.above, fun hf => ?_⟩
  obtain ⟨c, hc, hfc, hcomplete⟩ := h.below f hf
  exact ⟨h.subset f hf, c, hc, hfc, hcomplete⟩

/-- Where there is nothing at or below `p`, nothing changes. -/
theorem toggled_of_none (h : Stable r entries chosen) (hnone : ∀ c ∈ entries, ¬ r p c) :
    toggled r entries chosen p = chosen := by
  have hflipped : flipped r entries chosen p = chosen := by
    ext f
    by_cases hf : f ∈ entries
    · exact mem_flipped_of_apart hf (hnone f hf)
    · exact iff_of_false (fun hmem => hf hmem.1) fun hmem => hf (h.subset f hmem)
  unfold toggled
  rw [hflipped, h.raised, h.kept]

end Forest
