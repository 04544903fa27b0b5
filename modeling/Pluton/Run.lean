-- SUMMARY: Runs of a deterministic labelled system under a condition on its steps.
import Mathlib.Data.List.Basic

/-!
# Runs

A system is a step function; a run is a list of labels. `Along` says that every
step of a run satisfies a condition on the state before the step and the label.
-/
namespace Run

variable {S L : Type} {ls : List L}

/-- Every step of the run satisfies `ok`. -/
def Along (step : S → L → S) (ok : S → L → Prop) : S → List L → Prop
  | _, [] => True
  | s, l :: ls => ok s l ∧ Along step ok (step s l) ls

instance Along.decidable (step : S → L → S) (ok : S → L → Prop) [∀ s l, Decidable (ok s l)] :
    ∀ (s : S) (ls : List L), Decidable (Along step ok s ls)
  | _, [] => .isTrue trivial
  | s, l :: ls => @instDecidableAnd _ _ _ (Along.decidable step ok (step s l) ls)

variable {step : S → L → S} {ok : S → L → Prop} {s : S}

theorem along_append {ls ls' : List L} :
    Along step ok s (ls ++ ls') ↔ Along step ok s ls ∧ Along step ok (ls.foldl step s) ls' := by
  induction ls generalizing s with
  | nil => simp [Along]
  | cons l ls ih => simp [Along, ih, and_assoc]

theorem Along.and {ok' : S → L → Prop} (h : Along step ok s ls) (h' : Along step ok' s ls) :
    Along step (fun s l => ok s l ∧ ok' s l) s ls := by
  induction ls generalizing s with
  | nil => trivial
  | cons l ls ih => exact ⟨⟨h.1, h'.1⟩, ih h.2 h'.2⟩

theorem along_of_forall (h : ∀ l ∈ ls, ∀ s, ok s l) : Along step ok s ls := by
  induction ls generalizing s with
  | nil => trivial
  | cons l ls ih =>
      exact ⟨h l List.mem_cons_self s, ih fun l' hl' => h l' (List.mem_cons_of_mem l hl')⟩

/-- A property that every admitted step keeps holds after every admitted run. -/
theorem Along.invariant {Inv : S → Prop} (hstep : ∀ s l, ok s l → Inv s → Inv (step s l))
    (h : Along step ok s ls) (hinv : Inv s) : Inv (ls.foldl step s) := by
  induction ls generalizing s with
  | nil => exact hinv
  | cons l ls ih => exact ih h.2 (hstep s l h.1 hinv)

/-- Where a step is admitted exactly when it ends in a good state, a run is admitted exactly when
every state it goes through is good. -/
theorem along_iff_prefixes {Inv Good : S → Prop} (hgood : ∀ s, Inv s → Good s)
    (hstep : ∀ s l, Inv s → ok s l → Inv (step s l))
    (hallow : ∀ s l, Inv s → Good (step s l) → ok s l) (hinv : Inv s) :
    Along step ok s ls ↔ ∀ pre, pre <+: ls → Good (pre.foldl step s) := by
  induction ls generalizing s with
  | nil =>
      refine ⟨fun _ pre hpre => ?_, fun _ => trivial⟩
      rw [List.prefix_nil.mp hpre]
      exact hgood s hinv
  | cons l ls ih =>
      constructor
      · rintro ⟨hok, hrest⟩ pre hpre
        rcases List.prefix_cons_iff.mp hpre with rfl | ⟨pre', rfl, hpre'⟩
        · exact hgood s hinv
        · exact (ih (hstep s l hinv hok)).mp hrest pre' hpre'
      · intro h
        have hok : ok s l := hallow s l hinv (h [l] (List.prefix_append [l] ls))
        exact ⟨hok, (ih (hstep s l hinv hok)).mpr fun pre hpre =>
          h (l :: pre) ((List.prefix_cons_inj l).mpr hpre)⟩

end Run
