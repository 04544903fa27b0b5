-- SUMMARY: Postconditions for computations that may throw, with a rule for each composition.
import Mathlib.Algebra.GroupWithZero.Nat
import Mathlib.Data.List.Basic
import Mathlib.Data.List.Forall2

/-!
# How a computation ends

A computation that may throw has two kinds of ends. `Ends` states a condition for
each; its rules follow the composition of the computation, so that a proof about a
long function is assembled from what is known of its parts.
-/
namespace Except

variable {ε ε' α β : Type} {x : Except ε α} {f : α → Except ε β} {l : List α}

/-- What is returned satisfies `P`, what is thrown satisfies `E`. -/
def Ends (x : Except ε α) (P : α → Prop) (E : ε → Prop) : Prop :=
  match x with
  | .ok a => P a
  | .error e => E e

variable {P Q : α → Prop} {R : β → Prop} {E F : ε → Prop}

@[simp] theorem ends_ok {a : α} : (.ok a : Except ε α).Ends P E ↔ P a := Iff.rfl

@[simp] theorem ends_pure {a : α} : (pure a : Except ε α).Ends P E ↔ P a := Iff.rfl

@[simp] theorem ends_error {e : ε} : (.error e : Except ε α).Ends P E ↔ E e := Iff.rfl

theorem Ends.of_ok {a : α} (h : x.Ends P E) (hx : x = .ok a) : P a := by
  subst hx
  exact h

theorem Ends.of_error {e : ε} (h : x.Ends P E) (hx : x = .error e) : E e := by
  subst hx
  exact h

theorem Ends.mono (h : x.Ends P E) (hP : ∀ a, P a → Q a) (hE : ∀ e, E e → F e) :
    x.Ends Q F := by
  cases x with
  | ok a => exact hP a h
  | error e => exact hE e h

theorem Ends.bind (hx : x.Ends P E) (hf : ∀ a, P a → (f a).Ends R E) :
    (x >>= f).Ends R E := by
  cases x with
  | ok a => exact hf a hx
  | error e => exact hx

/-- The rule when nothing is known of the first part yet. -/
theorem ends_bind (hf : ∀ a, x = .ok a → (f a).Ends R E) (hx : ∀ e, x = .error e → E e) :
    (x >>= f).Ends R E := by
  cases x with
  | ok a => exact hf a rfl
  | error e => exact hx e rfl

theorem Ends.ite {c : Prop} [Decidable c] {x y : Except ε α} (hx : c → x.Ends P E)
    (hy : ¬c → y.Ends P E) : (if c then x else y).Ends P E := by
  by_cases hc : c
  · rw [if_pos hc]
    exact hx hc
  · rw [if_neg hc]
    exact hy hc

theorem ends_mapError {g : ε → ε'} {E' : ε' → Prop} (hP : ∀ a, x = .ok a → P a)
    (hE : ∀ e, E' (g e)) : (x.mapError g).Ends P E' := by
  cases x with
  | ok a => exact hP a rfl
  | error e => exact hE e

/-- An invariant of the steps is an invariant of the loop. -/
theorem ends_foldlM {f : β → α → Except ε β} {b : β} (hf : ∀ b a, R b → (f b a).Ends R E)
    (hb : R b) : (l.foldlM f b).Ends R E := by
  induction l generalizing b with
  | nil => exact hb
  | cons a l ih =>
      rw [List.foldlM_cons]
      exact (hf b a hb).bind fun b' hb' => ih hb'

theorem ends_forM {f : α → Except ε PUnit} (hf : ∀ a ∈ l, (f a).Ends (fun _ => True) E) :
    (l.forM f).Ends (fun _ => True) E := by
  induction l with
  | nil => trivial
  | cons a l ih =>
      exact (hf a List.mem_cons_self).bind fun _ _ => ih fun b hb =>
        hf b (List.mem_cons_of_mem a hb)

/-! ## Inversion -/

/-- `if (c) throw e` -/
def refuseIf (c : Bool) (e : ε) : Except ε Unit := if c then .error e else .ok ()

@[simp] theorem refuseIf_eq_ok {c : Bool} {e : ε} {u : Unit} :
    refuseIf c e = .ok u ↔ c = false := by
  cases c <;> simp [refuseIf]

theorem ends_refuseIf {c : Bool} {e : ε} {next : Except ε α} (hrefused : c = true → E e)
    (hnext : c = false → next.Ends P E) : (refuseIf c e >>= fun _ => next).Ends P E := by
  cases c with
  | true => exact hrefused rfl
  | false => exact hnext rfl

@[simp] theorem pure_eq_ok {a b : α} : (pure a : Except ε α) = .ok b ↔ a = b := by
  simp [pure, Except.pure]

theorem bind_eq_ok {b : β} :
    (x >>= f) = .ok b ↔ ∃ a, x = .ok a ∧ f a = .ok b := by
  cases x with
  | ok a => simp [bind, Except.bind]
  | error e => simp [bind, Except.bind]

theorem map_eq_ok {f : α → β} {b : β} :
    x.map f = .ok b ↔ ∃ a, x = .ok a ∧ f a = b := by
  cases x with
  | ok a => simp [Except.map]
  | error e => simp [Except.map]

theorem mapError_eq_ok {g : ε → ε'} {a : α} :
    x.mapError g = .ok a ↔ x = .ok a := by
  cases x with
  | ok a => simp [Except.mapError]
  | error e => simp [Except.mapError]

theorem forM_eq_ok {f : α → Except ε PUnit} {u : PUnit} :
    l.forM f = .ok u ↔ ∀ a ∈ l, f a = .ok () := by
  induction l with
  | nil => simp
  | cons a l ih =>
      have hcons : (a :: l).forM f = (f a >>= fun _ => l.forM f) := rfl
      rw [hcons, bind_eq_ok, List.forall_mem_cons]
      constructor
      · rintro ⟨_, ha, hl⟩
        exact ⟨ha, ih.mp hl⟩
      · rintro ⟨ha, hl⟩
        exact ⟨(), ha, ih.mpr hl⟩

theorem mapM_eq_ok {l' : List β} :
    l.mapM f = .ok l' ↔ List.Forall₂ (fun a b => f a = .ok b) l l' := by
  induction l generalizing l' with
  | nil =>
      rw [List.mapM_nil, pure_eq_ok, List.forall₂_nil_left_iff]
      exact eq_comm
  | cons a l ih =>
      simp only [List.mapM_cons, bind_eq_ok, pure_eq_ok, List.forall₂_cons_left_iff, ih]
      constructor
      · rintro ⟨b, hb, rest, hrest, rfl⟩
        exact ⟨b, rest, hb, hrest, rfl⟩
      · rintro ⟨b, rest, hb, hrest, rfl⟩
        exact ⟨b, hb, rest, hrest, rfl⟩

theorem forall₂_mem_right {R : α → β → Prop} {as : List α} {bs : List β} (h : List.Forall₂ R as bs)
    {b : β} (hb : b ∈ bs) : ∃ a ∈ as, R a b := by
  induction h with
  | nil => cases hb
  | @cons a b' as bs hab _ ih =>
      rcases List.mem_cons.mp hb with rfl | hrest
      · exact ⟨a, List.mem_cons_self, hab⟩
      · obtain ⟨a', ha', hR⟩ := ih hrest
        exact ⟨a', List.mem_cons_of_mem a ha', hR⟩

theorem forall₂_mem_left {R : α → β → Prop} {as : List α} {bs : List β} (h : List.Forall₂ R as bs)
    {a : α} (ha : a ∈ as) : ∃ b ∈ bs, R a b :=
  forall₂_mem_right h.flip ha

/-- Every result of a loop is the result of one of its items. -/
theorem mem_of_mapM {l' : List β} (h : l.mapM f = .ok l') {b : β} (hb : b ∈ l') :
    ∃ a ∈ l, f a = .ok b :=
  forall₂_mem_right (mapM_eq_ok.mp h) hb

theorem anyM_eq_false {p : α → Except ε Bool} :
    l.anyM p = .ok false ↔ ∀ a ∈ l, p a = .ok false := by
  induction l with
  | nil => simp [List.anyM]
  | cons a l ih =>
      rw [List.anyM, bind_eq_ok, List.forall_mem_cons, ← ih]
      constructor
      · rintro ⟨found, ha, hl⟩
        cases found with
        | true => cases hl
        | false => exact ⟨ha, hl⟩
      · rintro ⟨ha, hl⟩
        exact ⟨false, ha, hl⟩

/-- A loop that ends kept the invariant of its steps and established what each step does. -/
theorem foldlM_each {f : β → α → Except ε β} {Inv : β → Prop} {Q : α → Prop}
    (hf : ∀ a ∈ l, ∀ b b', f b a = .ok b' → Inv b → Inv b' ∧ Q a) {b b' : β}
    (h : l.foldlM f b = .ok b') (hb : Inv b) : Inv b' ∧ ∀ a ∈ l, Q a := by
  induction l generalizing b with
  | nil =>
      rw [List.foldlM_nil, pure_eq_ok] at h
      subst h
      exact ⟨hb, by simp⟩
  | cons a l ih =>
      rw [List.foldlM_cons, bind_eq_ok] at h
      obtain ⟨next, hstep, hrest⟩ := h
      obtain ⟨hnext, ha⟩ := hf a List.mem_cons_self b next hstep hb
      obtain ⟨hlast, hl⟩ := ih (fun c hc => hf c (List.mem_cons_of_mem a hc)) hrest hnext
      exact ⟨hlast, List.forall_mem_cons.mpr ⟨ha, hl⟩⟩

end Except
