-- SUMMARY: Concurrent calls over one shared state, interleaved at their awaits.
import Mathlib.Data.List.Basic
import Mathlib.Order.Basic

/-!
# Calls that interleave at await points

A single-threaded runtime runs any number of calls over one shared state. A call
runs without interruption up to its next `await`; between two awaits of one call
every other call may run. `Program` gives the code of a call as one function per
resumption, `Config` is the shared state with every call made so far, and a run
is the fold of `step` over a list of labels. Time is a clock that labels only
ever move forward.

A history variable (`observe`) records along a run what the state itself does
not keep. `Meets` says that every step of a run satisfies a condition on the
history, the state before the step and the label; `Meets.invariant` is the
induction rule for such runs.
-/
namespace Await

variable {S C E L R G : Type}

/-- Where a call stands: waiting to be resumed at a local state, returned, or
lost in a crash of the process. -/
inductive Phase (L R : Type) where
  | waiting (l : L)
  | returned (r : R)
  | lost
  deriving DecidableEq

/-- A call together with where it stands. -/
structure Task (C L R : Type) where
  call : C
  phase : Phase L R
  deriving DecidableEq

/-- The code of the calls. `enter` is the part of a call before its first await,
`resume` one resumption; both read the clock, and `resume` also reads what the
environment answers. -/
structure Program (S C E L R : Type) where
  enter : Nat → C → Phase L R
  resume : Nat → E → S → L → S × Phase L R

/-- The shared state, the clock and every call made so far, in order. -/
structure Config (S C L R : Type) where
  clock : Nat
  shared : S
  tasks : List (Task C L R)

/-- What can happen next. -/
inductive Label (C E : Type) where
  | tick (d : Nat)
  | call (c : C)
  | resume (i : Nat) (e : E)
  | crash

/-- A crash loses every call that has not returned. -/
def Task.crash (t : Task C L R) : Task C L R :=
  match t.phase with
  | .waiting _ => { t with phase := .lost }
  | _ => t

namespace Program

def step (P : Program S C E L R) (s : Config S C L R) : Label C E → Config S C L R
  | .tick d => { s with clock := s.clock + d }
  | .call c => { s with tasks := s.tasks ++ [⟨c, P.enter s.clock c⟩] }
  | .resume i e =>
    match s.tasks[i]? with
    | some ⟨c, .waiting l⟩ =>
      let next := P.resume s.clock e s.shared l
      { s with shared := next.1, tasks := s.tasks.set i ⟨c, next.2⟩ }
    | _ => s
  | .crash => { s with tasks := s.tasks.map Task.crash }

/-- The state after a run. -/
def run (P : Program S C E L R) (s : Config S C L R) (ls : List (Label C E)) : Config S C L R :=
  ls.foldl P.step s

variable {P : Program S C E L R} {s : Config S C L R} {ls ls' : List (Label C E)}

@[simp] theorem run_nil : P.run s [] = s := rfl

@[simp] theorem run_cons {l : Label C E} {ls : List (Label C E)} :
    P.run s (l :: ls) = P.run (P.step s l) ls := rfl

@[simp] theorem run_append :
    P.run s (ls ++ ls') = P.run (P.run s ls) ls' := by
  simp [run, List.foldl_append]

/-- What a resumption does: nothing, unless the call is waiting, and then one
resumption of its code. -/
theorem step_resume_cases (P : Program S C E L R) (s : Config S C L R) (i : Nat) (e : E) :
    P.step s (.resume i e) = s ∨
    ∃ c l, s.tasks[i]? = some ⟨c, .waiting l⟩ ∧
      P.step s (.resume i e) =
        { s with
          shared := (P.resume s.clock e s.shared l).1
          tasks := s.tasks.set i ⟨c, (P.resume s.clock e s.shared l).2⟩ } := by
  match htask : s.tasks[i]? with
  | none => exact .inl (by simp [step, htask])
  | some ⟨c, .waiting l⟩ => exact .inr ⟨c, l, rfl, by simp [step, htask]⟩
  | some ⟨c, .returned r⟩ => exact .inl (by simp [step, htask])
  | some ⟨c, .lost⟩ => exact .inl (by simp [step, htask])

/-! ## Histories and conditions on runs -/

/-- The value of a history variable after a run. -/
def history (P : Program S C E L R) (observe : G → Config S C L R → Label C E → G) :
    G → Config S C L R → List (Label C E) → G
  | g, _, [] => g
  | g, s, l :: ls => history P observe (observe g s l) (P.step s l) ls

/-- Every step of the run satisfies `ok`, read on the history so far, the state
before the step and the label. -/
def Meets (P : Program S C E L R) (observe : G → Config S C L R → Label C E → G)
    (ok : G → Config S C L R → Label C E → Prop) :
    G → Config S C L R → List (Label C E) → Prop
  | _, _, [] => True
  | g, s, l :: ls => ok g s l ∧ Meets P observe ok (observe g s l) (P.step s l) ls

instance Meets.decidable (P : Program S C E L R)
    (observe : G → Config S C L R → Label C E → G)
    (ok : G → Config S C L R → Label C E → Prop) [∀ g s l, Decidable (ok g s l)] :
    ∀ (g : G) (s : Config S C L R) (ls : List (Label C E)), Decidable (Meets P observe ok g s ls)
  | _, _, [] => .isTrue trivial
  | g, s, l :: ls =>
    @instDecidableAnd _ _ _ (Meets.decidable P observe ok (observe g s l) (P.step s l) ls)

/-- The history that keeps the labels of the run. -/
def labels (g : List (Label C E)) (_ : Config S C L R) (l : Label C E) : List (Label C E) :=
  g ++ [l]

theorem history_labels (P : Program S C E L R) (g : List (Label C E)) (s : Config S C L R)
    (ls : List (Label C E)) : P.history labels g s ls = g ++ ls := by
  induction ls generalizing g s with
  | nil => simp [history]
  | cons l ls ih => simp [history, ih, labels]

variable {observe : G → Config S C L R → Label C E → G}
  {ok : G → Config S C L R → Label C E → Prop}

/-- A property of history and state that every admitted step keeps holds after
every admitted run. -/
theorem Meets.invariant {Inv : G → Config S C L R → Prop}
    (hstep : ∀ g s l, ok g s l → Inv g s → Inv (observe g s l) (P.step s l))
    {g : G} {ls : List (Label C E)} (hmeets : Meets P observe ok g s ls) (hinv : Inv g s) :
    Inv (history P observe g s ls) (P.run s ls) := by
  induction ls generalizing g s with
  | nil => exact hinv
  | cons l ls ih => exact ih hmeets.2 (hstep g s l hmeets.1 hinv)

/-- An admitted run stays admitted when it is cut short. -/
theorem Meets.of_append {g : G} (hmeets : Meets P observe ok g s (ls ++ ls')) :
    Meets P observe ok g s ls := by
  induction ls generalizing g s with
  | nil => trivial
  | cons l ls ih => exact ⟨hmeets.1, ih hmeets.2⟩

/-- The condition at one step of an admitted run. -/
theorem Meets.at_step {g : G} {l : Label C E} (hmeets : Meets P observe ok g s (ls ++ l :: ls')) :
    ok (history P observe g s ls) (P.run s ls) l := by
  induction ls generalizing g s with
  | nil => exact hmeets.1
  | cons l' ls ih => exact ih hmeets.2

end Program

/-! ## Invariants made of one part for the shared state and one for each call

A call that is waiting relies on facts about the shared state that the other
calls must not break. `Rely` collects what each kind of step owes. -/

/-- What keeps `Sh` true of the shared state and `Lc` true of every call, `i`
being the position of the call. -/
structure Rely (P : Program S C E L R) (observe : G → Config S C L R → Label C E → G)
    (ok : G → Config S C L R → Label C E → Prop)
    (Sh : G → Nat → S → Prop) (Lc : G → Nat → S → Nat → C → Phase L R → Prop) : Prop where
  tick : ∀ {g s d}, ok g s (.tick d) → Sh g s.clock s.shared →
    Sh (observe g s (.tick d)) (s.clock + d) s.shared ∧
    ∀ {i c ph}, Lc g s.clock s.shared i c ph →
      Lc (observe g s (.tick d)) (s.clock + d) s.shared i c ph
  call : ∀ {g s c}, ok g s (.call c) → Sh g s.clock s.shared →
    Sh (observe g s (.call c)) s.clock s.shared ∧
    Lc (observe g s (.call c)) s.clock s.shared s.tasks.length c (P.enter s.clock c) ∧
    ∀ {i c' ph}, i < s.tasks.length → Lc g s.clock s.shared i c' ph →
      Lc (observe g s (.call c)) s.clock s.shared i c' ph
  crash : ∀ {g s}, ok g s .crash → Sh g s.clock s.shared →
    Sh (observe g s .crash) s.clock s.shared ∧
    ∀ {i c ph}, Lc g s.clock s.shared i c ph →
      Lc (observe g s .crash) s.clock s.shared i c (Task.crash ⟨c, ph⟩).phase
  idle : ∀ {g s i e}, P.step s (.resume i e) = s → ok g s (.resume i e) →
    Sh g s.clock s.shared → Sh (observe g s (.resume i e)) s.clock s.shared ∧
    ∀ {j c ph}, Lc g s.clock s.shared j c ph →
      Lc (observe g s (.resume i e)) s.clock s.shared j c ph
  resume : ∀ {g s i e c l}, s.tasks[i]? = some ⟨c, .waiting l⟩ → ok g s (.resume i e) →
    Sh g s.clock s.shared → Lc g s.clock s.shared i c (.waiting l) →
    Sh (observe g s (.resume i e)) s.clock (P.resume s.clock e s.shared l).1 ∧
    Lc (observe g s (.resume i e)) s.clock (P.resume s.clock e s.shared l).1 i c
      (P.resume s.clock e s.shared l).2 ∧
    ∀ {j c' ph}, j ≠ i → s.tasks[j]? = some ⟨c', ph⟩ → Lc g s.clock s.shared j c' ph →
      Lc (observe g s (.resume i e)) s.clock (P.resume s.clock e s.shared l).1 j c' ph

/-- The invariant of a whole configuration. -/
structure Holds (Sh : G → Nat → S → Prop) (Lc : G → Nat → S → Nat → C → Phase L R → Prop)
    (g : G) (s : Config S C L R) : Prop where
  shared : Sh g s.clock s.shared
  local_ : ∀ {i c ph}, s.tasks[i]? = some ⟨c, ph⟩ → Lc g s.clock s.shared i c ph

namespace Rely

variable {P : Program S C E L R} {observe : G → Config S C L R → Label C E → G}
  {ok : G → Config S C L R → Label C E → Prop}
  {Sh : G → Nat → S → Prop} {Lc : G → Nat → S → Nat → C → Phase L R → Prop}

theorem holds_step (hrely : Rely P observe ok Sh Lc) (g : G) (s : Config S C L R)
    (l : Label C E) (hok : ok g s l) (h : Holds Sh Lc g s) :
    Holds Sh Lc (observe g s l) (P.step s l) := by
  cases l with
  | tick d =>
      obtain ⟨hsh, hlc⟩ := hrely.tick hok h.shared
      exact ⟨hsh, fun htask => hlc (h.local_ htask)⟩
  | call c =>
      obtain ⟨hsh, hnew, hlc⟩ := hrely.call hok h.shared
      refine ⟨hsh, ?_⟩
      intro i c' ph htask
      simp only [Program.step] at htask
      -- An old call keeps its place; the new one is the last.
      rcases Nat.lt_or_ge i s.tasks.length with hi | hi
      · rw [List.getElem?_append_left hi] at htask
        exact hlc hi (h.local_ htask)
      · rw [List.getElem?_append_right hi] at htask
        obtain ⟨hzero, heq⟩ := List.getElem?_eq_some_iff.mp htask
        have hi' : i = s.tasks.length := by simp at hzero; omega
        subst hi'
        simp at heq
        obtain ⟨rfl, rfl⟩ := heq
        exact hnew
  | crash =>
      obtain ⟨hsh, hlc⟩ := hrely.crash hok h.shared
      refine ⟨hsh, ?_⟩
      intro i c ph htask
      simp only [Program.step, List.getElem?_map, Option.map_eq_some_iff] at htask
      obtain ⟨⟨c', ph'⟩, hold, heq⟩ := htask
      have hcall : c' = c := by
        cases ph' <;> simp [Task.crash] at heq <;> exact heq.1
      subst hcall
      have hphase : (Task.crash ⟨c', ph'⟩ : Task C L R).phase = ph := by rw [heq]
      exact hphase ▸ hlc (h.local_ hold)
  | resume i e =>
      rcases Program.step_resume_cases P s i e with hidle | ⟨c, l, htask, hstep⟩
      · obtain ⟨hsh, hlc⟩ := hrely.idle hidle hok h.shared
        rw [hidle]
        exact ⟨hsh, fun hj => hlc (h.local_ hj)⟩
      · obtain ⟨hsh, hown, hlc⟩ := hrely.resume htask hok h.shared (h.local_ htask)
        rw [hstep]
        refine ⟨hsh, ?_⟩
        intro j c' ph hj
        -- Only the call `i` went on; every other one has the phase it had.
        by_cases hji : j = i
        · subst hji
          have hlt := (List.getElem?_eq_some_iff.mp htask).1
          simp [List.getElem?_set_self hlt] at hj
          obtain ⟨rfl, rfl⟩ := hj
          exact hown
        · rw [List.getElem?_set_ne (Ne.symm hji)] at hj
          exact hlc hji hj (h.local_ hj)

/-- The invariant holds after every admitted run that starts in it. -/
theorem holds_run (hrely : Rely P observe ok Sh Lc) {g : G} {s : Config S C L R}
    {ls : List (Label C E)} (hmeets : P.Meets observe ok g s ls) (h : Holds Sh Lc g s) :
    Holds Sh Lc (P.history observe g s ls) (P.run s ls) :=
  hmeets.invariant hrely.holds_step h

end Rely

end Await
