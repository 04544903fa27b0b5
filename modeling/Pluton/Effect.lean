-- SUMMARY: Weakest preconditions for programs over a state that survives their failures.
import Mathlib.Data.List.Basic
import Mathlib.Order.Defs.Unbundled

/-!
# Programs with a state and failures

`EStateM` is the monad of programs whose state is kept when they throw. `wp`
states one condition for a return and one for a throw, both on the state that is
left behind; its rules follow the composition of the program.
-/
namespace EStateM

variable {ε σ α β : Type}

/-- From the state `s` the program returns into `Q` or throws into `E`. -/
def wp (x : EStateM ε σ α) (Q : α → σ → Prop) (E : ε → σ → Prop) (s : σ) : Prop :=
  match x s with
  | .ok a s' => Q a s'
  | .error e s' => E e s'

/-- The state in which a program ends, returned or thrown. -/
def Result.state : Result ε σ α → σ
  | .ok _ s => s
  | .error _ s => s

/-- What the program returned, if it did. -/
def Result.value? : Result ε σ α → Option α
  | .ok a _ => some a
  | .error _ _ => none

/-- The state that the program leaves behind when it is started in `s`. -/
def after (x : EStateM ε σ α) (s : σ) : σ := (x s).state

/-- `if (c) throw e` -/
def refuseIf (c : Bool) (e : ε) : EStateM ε σ Unit := if c then throw e else pure ()

/-- What the program ends with, as a value: the body of a `try`. -/
def observe (x : EStateM ε σ α) : EStateM ε σ (Except ε α) := fun s =>
  match x s with
  | .ok a s' => .ok (.ok a) s'
  | .error e s' => .ok (.error e) s'

variable {Q Q' : α → σ → Prop} {R : β → σ → Prop} {E E' : ε → σ → Prop} {I : σ → Prop} {s : σ}

/-! ## Rules -/

theorem wp.mono {x : EStateM ε σ α} (h : wp x Q E s) (hQ : ∀ a s', Q a s' → Q' a s')
    (hE : ∀ e s', E e s' → E' e s') : wp x Q' E' s := by
  unfold wp at *
  cases hx : x s with
  | ok a s' =>
      rw [hx] at h
      exact hQ a s' h
  | error e s' =>
      rw [hx] at h
      exact hE e s' h

@[simp] theorem wp_pure {a : α} : wp (pure a) Q E s ↔ Q a s := Iff.rfl

@[simp] theorem wp_throw {e : ε} : wp (throw e : EStateM ε σ α) Q E s ↔ E e s := Iff.rfl

theorem wp_bind {x : EStateM ε σ α} {f : α → EStateM ε σ β} :
    wp (x >>= f) R E s ↔ wp x (fun a => wp (f a) R E) E s := by
  unfold wp
  simp only [bind, EStateM.bind]
  cases x s with
  | ok a s' => rfl
  | error e s' => rfl

theorem wp.bind {x : EStateM ε σ α} {f : α → EStateM ε σ β} (h : wp x Q E s)
    (hf : ∀ a s', Q a s' → wp (f a) R E s') : wp (x >>= f) R E s :=
  wp_bind.mpr (h.mono hf fun _ _ he => he)

@[simp] theorem wp_get {R : σ → σ → Prop} : wp (get : EStateM ε σ σ) R E s ↔ R s s := Iff.rfl

@[simp] theorem wp_modify {f : σ → σ} {R : PUnit → σ → Prop} :
    wp (modify f : EStateM ε σ PUnit) R E s ↔ R ⟨⟩ (f s) := Iff.rfl

theorem wp_refuseIf {c : Bool} {e : ε} {R : Unit → σ → Prop} :
    wp (refuseIf c e) R E s ↔ (c = true → E e s) ∧ (c = false → R () s) := by
  cases c with
  | true => simp [refuseIf]
  | false => simp [refuseIf]

theorem wp_observe {x : EStateM ε σ α} {R : Except ε α → σ → Prop} :
    wp (observe x) R E s ↔ wp x (fun a => R (.ok a)) (fun e => R (.error e)) s := by
  unfold wp observe
  cases x s with
  | ok a s' => rfl
  | error e s' => rfl

theorem wp_ofExcept {x : Except ε α} :
    wp (MonadExcept.ofExcept x) Q E s ↔ (∀ a, x = .ok a → Q a s) ∧ (∀ e, x = .error e → E e s) := by
  cases x with
  | ok a => simp [MonadExcept.ofExcept]
  | error e => simp [MonadExcept.ofExcept]

theorem wp_ite {c : Prop} [Decidable c] {x y : EStateM ε σ α} :
    wp (if c then x else y) Q E s ↔ (c → wp x Q E s) ∧ (¬c → wp y Q E s) := by
  by_cases hc : c
  · simp [hc]
  · simp [hc]

/-- An invariant of the body is an invariant of the loop. -/
theorem wp_forM {f : α → EStateM ε σ PUnit} {l : List α}
    (hf : ∀ a ∈ l, ∀ s, I s → wp (f a) (fun _ => I) E s) (hs : I s) :
    wp (l.forM f) (fun _ => I) E s := by
  induction l generalizing s with
  | nil => exact hs
  | cons a l ih =>
      exact (hf a List.mem_cons_self s hs).bind fun _ s' hs' =>
        ih (fun b hb => hf b (List.mem_cons_of_mem a hb)) hs'

theorem wp_foldlM {f : β → α → EStateM ε σ β} {J : β → σ → Prop} {l : List α} {b : β}
    (hf : ∀ a ∈ l, ∀ b s, J b s → wp (f b a) J E s) (hb : J b s) : wp (l.foldlM f b) J E s := by
  induction l generalizing b s with
  | nil => exact hb
  | cons a l ih =>
      rw [List.foldlM_cons]
      exact (hf a List.mem_cons_self b s hb).bind fun b' s' hb' =>
        ih (fun a' ha' => hf a' (List.mem_cons_of_mem a ha')) hb'

/-- The rule for a loop whose body establishes something for each of its elements. -/
theorem wp_forM_each {f : α → EStateM ε σ PUnit} {l : List α} {D : α → σ → Prop}
    (hf : ∀ a ∈ l, ∀ s, I s → wp (f a) (fun _ s' => I s' ∧ D a s' ∧ ∀ b, D b s → D b s') E s)
    (hs : I s) : wp (l.forM f) (fun _ s' => I s' ∧ ∀ a ∈ l, D a s') E s := by
  suffices h : wp (l.forM f) (fun _ s' => (I s' ∧ ∀ a ∈ l, D a s') ∧ ∀ b, D b s → D b s') E s from
    h.mono (fun _ _ h => h.1) fun _ _ h => h
  induction l generalizing s with
  | nil => exact ⟨⟨hs, by simp⟩, fun _ h => h⟩
  | cons a l ih =>
      refine (hf a List.mem_cons_self s hs).bind fun _ s' ⟨hs', ha, hkeep⟩ => ?_
      refine (ih (fun b hb => hf b (List.mem_cons_of_mem a hb)) hs').mono ?_ fun _ _ h => h
      rintro _ s'' ⟨⟨hs'', hl⟩, hkeep'⟩
      refine ⟨⟨hs'', ?_⟩, fun b hb => hkeep' b (hkeep b hb)⟩
      rw [List.forall_mem_cons]
      exact ⟨hkeep' a ha, hl⟩

/-! ## Programs that stay within a relation -/

/-- Whichever way the program ends, its last state is related to its first. -/
def Within (r : σ → σ → Prop) (x : EStateM ε σ α) : Prop :=
  ∀ s, wp x (fun _ => r s) (fun _ => r s) s

namespace Within

section

variable {r : σ → σ → Prop} [Std.Refl r]

theorem pure {a : α} : Within r (pure a : EStateM ε σ α) := fun s => refl_of r s

theorem throw {e : ε} : Within r (throw e : EStateM ε σ α) := fun s => refl_of r s

theorem refuseIf {c : Bool} {e : ε} : Within r (refuseIf c e : EStateM ε σ Unit) := by
  intro s
  rw [wp_refuseIf]
  exact ⟨fun _ => refl_of r s, fun _ => refl_of r s⟩

theorem ofExcept {a : Except ε α} : Within r (MonadExcept.ofExcept a : EStateM ε σ α) := by
  intro s
  rw [wp_ofExcept]
  exact ⟨fun _ _ => refl_of r s, fun _ _ => refl_of r s⟩

theorem forM [IsTrans σ r] {f : α → EStateM ε σ PUnit} (hf : ∀ a, Within r (f a)) (l : List α) :
    Within r (l.forM f) := by
  intro s
  refine wp_forM (fun a _ s' hs' => ?_) (refl_of r s)
  exact (hf a s').mono (fun _ _ h => trans_of r hs' h) fun _ _ h => trans_of r hs' h

end

section

variable {r : σ → σ → Prop} {x : EStateM ε σ α} {f : α → EStateM ε σ β}

theorem bind [IsTrans σ r] (hx : Within r x) (hf : ∀ a, Within r (f a)) : Within r (x >>= f) := by
  intro s
  refine wp.bind (hx s) fun a s' hs' => ?_
  exact (hf a s').mono (fun _ _ h => trans_of r hs' h) fun _ _ h => trans_of r hs' h

end

end Within

/-! ## The state left behind -/

/-- Where both ends are alike, the condition is one on the state left behind. -/
theorem wp_iff_after {x : EStateM ε σ α} : wp x (fun _ => I) (fun _ => I) s ↔ I (x.after s) := by
  unfold wp after Result.state
  cases x s with
  | ok a s' => rfl
  | error e s' => rfl

theorem wp.returns {x : EStateM ε σ α} (h : wp x Q (fun _ _ => False) s) :
    ∃ a s', x s = .ok a s' ∧ Q a s' := by
  unfold wp at h
  cases hx : x s with
  | ok a s' =>
      rw [hx] at h
      exact ⟨a, s', rfl, h⟩
  | error e s' =>
      rw [hx] at h
      exact h.elim

/-- A condition may use that the state is the one the program ends in. -/
theorem wp.result {x : EStateM ε σ α} (h : wp x Q E s) :
    wp x (fun a s' => x s = .ok a s' ∧ Q a s') (fun e s' => x s = .error e s' ∧ E e s') s := by
  unfold wp at *
  cases hx : x s with
  | ok a s' =>
      rw [hx] at h
      exact ⟨rfl, h⟩
  | error e s' =>
      rw [hx] at h
      exact ⟨rfl, h⟩

end EStateM
