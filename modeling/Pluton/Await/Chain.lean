-- SUMMARY: A chain of promises that serialises the calls made for one key.
import Mathlib.Algebra.GroupWithZero.Nat
import Mathlib.Data.List.Basic

/-!
# Promise chains

A map holds the promise of the last call of a key. A new call waits for that promise and
puts its own in its place; a call that has settled takes its promise out of the map when
it is still the last. What a call does once it runs, and how it settles, are parameters.

`Serial` is the invariant: a call that has begun is behind settled calls only.
-/
namespace Await

/-- Where a call of a chain stands. -/
inductive LinkPhase (R O : Type) where
  | waiting
  | running (r : R)
  | settled (o : O)
  deriving DecidableEq

def LinkPhase.outcome {R O : Type} : LinkPhase R O → Option O
  | .settled o => some o
  | .waiting => none
  | .running _ => none

/-- A call and the position of the call it waits for. -/
structure Link (C R O : Type) where
  call : C
  before : Option Nat
  phase : LinkPhase R O

/-- The calls in the order they were made, and the entry of the map. -/
structure Chain (C R O : Type) where
  links : List (Link C R O)
  tail : Option Nat

namespace Chain

variable {C R O : Type}

def empty : Chain C R O := ⟨[], none⟩

variable (c : Chain C R O)

def enqueue (call : C) : Chain C R O := ⟨c.links ++ [⟨call, c.tail, .waiting⟩], some c.links.length⟩

def outcomeAt (i : Nat) : Option O := c.links[i]?.bind (·.phase.outcome)

/-- The call waits and the one it waits for has settled. -/
def ready (i : Nat) : Option (Link C R O) :=
  c.links[i]?.filter fun link =>
    match link.phase with
    | .waiting => link.before.all fun j => (c.outcomeAt j).isSome
    | _ => false

def setPhase (i : Nat) (phase : LinkPhase R O) : Chain C R O :=
  { c with links := c.links.modify i fun link => { link with phase := phase } }

/-- The end of a settled call. -/
def release (i : Nat) : Chain C R O :=
  if (c.outcomeAt i).isSome ∧ c.tail = some i then { c with tail := none } else c

/-- A call that has begun is behind settled calls only; a call waits for the one made
just before it, unless all before it had settled. -/
structure Serial : Prop where
  last : ∀ i, c.tail = some i → i + 1 = c.links.length
  idle : c.tail = none → ∀ link ∈ c.links, link.phase.outcome.isSome
  begun : ∀ (i j : Nat) (link : Link C R O), i < j → c.links[j]? = some link →
    link.phase ≠ .waiting →
    (c.outcomeAt i).isSome
  follows : ∀ (j : Nat) (link : Link C R O), c.links[j]? = some link →
    link.before.elim (∀ i < j, (c.outcomeAt i).isSome) (· + 1 = j)

variable {c} {i j : Nat} {link : Link C R O} {phase : LinkPhase R O}

theorem outcomeAt_eq_some {o : O} :
    c.outcomeAt i = some o ↔ ∃ link, c.links[i]? = some link ∧ link.phase = .settled o := by
  unfold outcomeAt
  cases c.links[i]? with
  | none => simp
  | some link => cases hphase : link.phase <;> simp [LinkPhase.outcome, hphase]

theorem ready_eq_some : c.ready i = some link ↔ c.links[i]? = some link ∧ link.phase = .waiting ∧
    link.before.all (fun j => (c.outcomeAt j).isSome) = true := by
  unfold ready
  rw [Option.filter_eq_some_iff]
  refine and_congr_right fun _ => ?_
  cases link.phase <;> simp

theorem getElem?_setPhase : (c.setPhase i phase).links[j]? =
    c.links[j]?.map fun link => if i = j then { link with phase := phase } else link := by
  unfold setPhase
  rw [List.getElem?_modify]
  congr 1

theorem enqueue_cases {call : C} (h : (c.enqueue call).links[i]? = some link) :
    c.links[i]? = some link ∨ i = c.links.length ∧ link = ⟨call, c.tail, .waiting⟩ := by
  simp only [enqueue] at h
  rcases Nat.lt_or_ge i c.links.length with hlt | hge
  · rw [List.getElem?_append_left hlt] at h
    exact .inl h
  · rw [List.getElem?_append_right hge] at h
    obtain ⟨hzero, hlink⟩ := List.getElem?_eq_some_iff.mp h
    have hzero' : i - c.links.length = 0 := by simpa using hzero
    exact .inr ⟨by omega, by simpa [hzero'] using hlink.symm⟩

theorem outcomeAt_enqueue {call : C} {o : O} :
    (c.enqueue call).outcomeAt i = some o ↔ c.outcomeAt i = some o := by
  constructor
  · intro h
    obtain ⟨link, hlink, hphase⟩ := outcomeAt_eq_some.mp h
    rcases enqueue_cases hlink with hold | ⟨-, rfl⟩
    · exact outcomeAt_eq_some.mpr ⟨link, hold, hphase⟩
    · cases hphase
  · intro h
    obtain ⟨link, hlink, hphase⟩ := outcomeAt_eq_some.mp h
    refine outcomeAt_eq_some.mpr ⟨link, ?_, hphase⟩
    rw [enqueue, List.getElem?_append_left (List.getElem?_eq_some_iff.mp hlink).1, hlink]

/-- A call that settles, or that goes on, leaves what has settled. -/
theorem outcomeAt_setPhase {o : O} (hi : c.outcomeAt i = none) (h : c.outcomeAt j = some o) :
    (c.setPhase i phase).outcomeAt j = some o := by
  have hne : i ≠ j := fun heq => by rw [heq, h] at hi; cases hi
  obtain ⟨link, hlink, hphase⟩ := outcomeAt_eq_some.mp h
  refine outcomeAt_eq_some.mpr ⟨link, ?_, hphase⟩
  rw [getElem?_setPhase, hlink, Option.map_some, if_neg hne]

theorem isSome_setPhase (hi : c.outcomeAt i = none) (h : (c.outcomeAt j).isSome) :
    ((c.setPhase i phase).outcomeAt j).isSome := by
  obtain ⟨o, ho⟩ := Option.isSome_iff_exists.mp h
  rw [outcomeAt_setPhase hi ho]
  rfl

/-- What has settled after a call went on had settled before, or is that call. -/
theorem outcomeAt_setPhase_cases {o : O} (h : (c.setPhase i phase).outcomeAt j = some o) :
    c.outcomeAt j = some o ∨ i = j ∧ phase = .settled o := by
  obtain ⟨link, hlink, hphase⟩ := outcomeAt_eq_some.mp h
  rw [getElem?_setPhase] at hlink
  obtain ⟨old, hold, heq⟩ := Option.map_eq_some_iff.mp hlink
  by_cases hij : i = j
  · rw [if_pos hij] at heq
    subst heq
    exact .inr ⟨hij, hphase⟩
  · rw [if_neg hij] at heq
    subst heq
    exact .inl (outcomeAt_eq_some.mpr ⟨old, hold, hphase⟩)

@[simp] theorem release_links : (c.release i).links = c.links := by
  unfold release
  split <;> rfl

@[simp] theorem outcomeAt_release : (c.release i).outcomeAt j = c.outcomeAt j := by
  rw [outcomeAt, release_links]
  rfl

namespace Serial

theorem empty : (Chain.empty : Chain C R O).Serial where
  last := nofun
  idle _ := nofun
  begun := nofun
  follows := nofun

/-- A call that waits can run as soon as all before it have settled. -/
theorem ready_of_settled (h : c.Serial) (hlink : c.links[i]? = some link)
    (hphase : link.phase = .waiting) (hbefore : ∀ j < i, (c.outcomeAt j).isSome) :
    c.ready i = some link := by
  refine ready_eq_some.mpr ⟨hlink, hphase, ?_⟩
  have hfollows := h.follows i link hlink
  cases hprev : link.before with
  | none => rfl
  | some j =>
      rw [hprev] at hfollows
      have hj : j + 1 = i := hfollows
      exact hbefore j (by omega)

/-- A call that may begin is behind settled calls only. -/
theorem settled_before_ready (h : c.Serial) (hready : c.ready i = some link) (hj : j < i) :
    (c.outcomeAt j).isSome := by
  obtain ⟨hlink, -, hprev⟩ := ready_eq_some.mp hready
  have hfollows := h.follows i link hlink
  cases hbefore : link.before with
  | none =>
      rw [hbefore] at hfollows
      exact hfollows j hj
  | some k =>
      rw [hbefore] at hfollows hprev
      have hk : k + 1 = i := hfollows
      have hsettled : (c.outcomeAt k).isSome := hprev
      by_cases heq : j = k
      · rw [heq]
        exact hsettled
      · obtain ⟨o, ho⟩ := Option.isSome_iff_exists.mp hsettled
        obtain ⟨linkk, hlinkk, hphase⟩ := outcomeAt_eq_some.mp ho
        exact h.begun j k linkk (by omega) hlinkk (by rw [hphase]; nofun)

theorem running_unique (h : c.Serial) {link' : Link C R O} {r r' : R} (hi : c.links[i]? = some link)
    (hr : link.phase = .running r) (hj : c.links[j]? = some link')
    (hr' : link'.phase = .running r') : i = j := by
  have hopen : ∀ {k : Nat} {other : Link C R O} {q : R}, c.links[k]? = some other →
      other.phase = .running q →
      (c.outcomeAt k).isSome = false := by
    intro k other q hk hq
    simp [outcomeAt, hk, hq, LinkPhase.outcome]
  rcases Nat.lt_trichotomy i j with hlt | heq | hgt
  · have hsettled := h.begun i j link' hlt hj (by rw [hr']; nofun)
    rw [hopen hi hr] at hsettled
    cases hsettled
  · exact heq
  · have hsettled := h.begun j i link hgt hi (by rw [hr]; nofun)
    rw [hopen hj hr'] at hsettled
    cases hsettled

theorem enqueue (h : c.Serial) (call : C) : (c.enqueue call).Serial := by
  have hkeep : ∀ {k : Nat}, (c.outcomeAt k).isSome → ((c.enqueue call).outcomeAt k).isSome := by
    intro k hk
    obtain ⟨o, ho⟩ := Option.isSome_iff_exists.mp hk
    rw [outcomeAt_enqueue.mpr ho]
    rfl
  refine ⟨fun i hi => ?_, nofun, fun i j link hij hj hphase => ?_, fun j link hj => ?_⟩
  · cases hi
    simp [Chain.enqueue]
  · rcases enqueue_cases hj with hlink | ⟨-, rfl⟩
    · exact hkeep (h.begun i j link hij hlink hphase)
    · exact absurd rfl hphase
  · rcases enqueue_cases hj with hlink | ⟨rfl, rfl⟩
    · have hfollows := h.follows j link hlink
      cases hbefore : link.before with
      | none =>
          rw [hbefore] at hfollows
          exact fun i hi => hkeep (hfollows i hi)
      | some k =>
          rw [hbefore] at hfollows
          exact hfollows
    · cases htail : c.tail with
      | some k => exact h.last k htail
      | none =>
          intro i hi
          have hlink := List.getElem?_eq_getElem hi
          have hidle := h.idle htail c.links[i] (List.getElem_mem hi)
          refine hkeep ?_
          rw [outcomeAt, hlink]
          exact hidle

/-- A call goes on, or it begins when it is ready. -/
theorem setPhase (h : c.Serial) (hopen : c.outcomeAt i = none)
    (hbefore : ∀ j < i, (c.outcomeAt j).isSome) :
    (c.setPhase i phase).Serial := by
  have horigin : ∀ {k : Nat} {link' : Link C R O}, (c.setPhase i phase).links[k]? = some link' →
      ∃ link, c.links[k]? = some link ∧
        link' = if i = k then { link with phase := phase } else link := by
    intro k link' hk
    rw [getElem?_setPhase] at hk
    obtain ⟨link, hlink, heq⟩ := Option.map_eq_some_iff.mp hk
    exact ⟨link, hlink, heq.symm⟩
  refine ⟨fun k hk => ?_, fun htail => ?_, fun k j link' hkj hj hphase => ?_, fun j link' hj => ?_⟩
  · have hlast := h.last k hk
    simpa [Chain.setPhase] using hlast
  · -- When no call is in the map, all have settled: none can be the one that goes on.
    intro link' hmem
    obtain ⟨k, hk⟩ := List.mem_iff_getElem?.mp hmem
    obtain ⟨link, hlink, rfl⟩ := horigin hk
    by_cases hik : i = k
    · subst hik
      have hidle := h.idle htail link (List.mem_of_getElem? hlink)
      rw [outcomeAt, hlink, Option.bind_some] at hopen
      rw [hopen] at hidle
      cases hidle
    · rw [if_neg hik]
      exact h.idle htail link (List.mem_of_getElem? hlink)
  · obtain ⟨link, hlink, rfl⟩ := horigin hj
    refine isSome_setPhase hopen ?_
    by_cases hij : i = j
    · exact hbefore k (hij ▸ hkj)
    · rw [if_neg hij] at hphase
      exact h.begun k j link hkj hlink hphase
  · obtain ⟨link, hlink, rfl⟩ := horigin hj
    have hsame : (if i = j then { link with phase := phase } else link).before = link.before := by
      split <;> rfl
    rw [hsame]
    have hfollows := h.follows j link hlink
    cases hprev : link.before with
    | none =>
        rw [hprev] at hfollows
        exact fun k hk => isSome_setPhase hopen (hfollows k hk)
    | some k =>
        rw [hprev] at hfollows
        exact hfollows

theorem begin (h : c.Serial) (hready : c.ready i = some link) : (c.setPhase i phase).Serial := by
  obtain ⟨hlink, hwaiting, -⟩ := ready_eq_some.mp hready
  refine h.setPhase ?_ fun j hj => h.settled_before_ready hready hj
  rw [outcomeAt, hlink, Option.bind_some, hwaiting]
  rfl

theorem advance (h : c.Serial) {r : R} (hlink : c.links[i]? = some link)
    (hphase : link.phase = .running r) :
    (c.setPhase i phase).Serial := by
  refine h.setPhase ?_ fun j hj => h.begun j i link hj hlink (by rw [hphase]; nofun)
  rw [outcomeAt, hlink, Option.bind_some, hphase]
  rfl

theorem release (h : c.Serial) (i : Nat) : (c.release i).Serial := by
  unfold Chain.release
  split
  · next hcond =>
    obtain ⟨hsettled, htail⟩ := hcond
    refine ⟨nofun, fun _ link hmem => ?_, h.begun, h.follows⟩
    obtain ⟨k, hk⟩ := List.mem_iff_getElem?.mp hmem
    have hlen := h.last i htail
    have hlt : k < c.links.length := (List.getElem?_eq_some_iff.mp hk).1
    have houtcome : (c.outcomeAt k).isSome := by
      by_cases hki : k = i
      · rw [hki]
        exact hsettled
      · obtain ⟨o, ho⟩ := Option.isSome_iff_exists.mp hsettled
        obtain ⟨last, hlast, hphase⟩ := outcomeAt_eq_some.mp ho
        exact h.begun k i last (by omega) hlast (by rw [hphase]; nofun)
    rw [outcomeAt, hk, Option.bind_some] at houtcome
    exact houtcome
  · exact h

end Serial

end Chain

end Await
