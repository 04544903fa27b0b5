-- SUMMARY: Mirror updates are applied in call order; a rejection is passed on along the chain.
import Mathlib.Data.Nat.Find
import Pluton.Mirrors.Store
import Pluton.Run

/-!
# No mirror update is lost

The calls that settle with an update are applied once each, in the order they were made.
Nothing is lost to another writer, but a call may never run: one whose predecessor was
rejected is rejected with it.
-/
namespace Pluton.Mirrors

open Await

variable {s : Store} {i j : Nat} {row : Option (List BackupMirror)}
  {link : Link MirrorCall Running Outcome} {phase : LinkPhase Running Outcome}

/-! ## The calls that were applied -/

/-- The call, if it has settled with an update. -/
def applied (link : Link MirrorCall Running Outcome) : Option MirrorCall :=
  if link.phase = .settled .updated then some link.call else none

/-- The calls that have settled with an update, in call order. -/
def Store.updates (s : Store) : List MirrorCall := s.chain.links.filterMap applied

/-- The mirrors after the updates of the calls. -/
def merged (mirrors : List BackupMirror) (calls : List MirrorCall) : List BackupMirror :=
  calls.foldl (fun mirrors call => call.apply mirrors) mirrors

theorem filterMap_modify_none {α β : Type} {f : α → Option β} {g : α → α} {l : List α}
    (h : ∀ a, l[i]? = some a → f (g a) = f a) : (l.modify i g).filterMap f = l.filterMap f := by
  induction l generalizing i with
  | nil => cases i <;> rfl
  | cons a l ih =>
      cases i with
      | zero => simp [List.modify_zero_cons, List.filterMap_cons, h a rfl]
      | succ i =>
          rw [List.modify_succ_cons, List.filterMap_cons, List.filterMap_cons,
            ih fun b hb => h b (by simpa using hb)]

/-- A value that appears at a position with nothing behind it is the last one. -/
theorem filterMap_modify_last {α β : Type} {f : α → Option β} {g : α → α} {l : List α} {a : α}
    {b : β} (ha : l[i]? = some a) (hbefore : f a = none) (hafter : f (g a) = some b)
    (hlater : ∀ j a', i < j → l[j]? = some a' → f a' = none) :
    (l.modify i g).filterMap f = l.filterMap f ++ [b] := by
  induction l generalizing i with
  | nil => cases ha
  | cons first l ih =>
      cases i with
      | zero =>
          cases ha
          have hnone : l.filterMap f = [] := by
            refine List.filterMap_eq_nil_iff.mpr fun a' ha' => ?_
            obtain ⟨j, hj⟩ := List.mem_iff_getElem?.mp ha'
            exact hlater (j + 1) a' (Nat.succ_pos j) (by simpa using hj)
          simp [List.modify_zero_cons, hbefore, hafter, hnone]
      | succ i =>
          have hrest := ih (i := i) (by simpa using ha) fun j a' hj ha' =>
            hlater (j + 1) a' (Nat.succ_lt_succ hj) (by simpa using ha')
          rw [List.modify_succ_cons, List.filterMap_cons, List.filterMap_cons, hrest]
          cases f first <;> rfl

/-! ## The invariant -/

/-- The mirrors are those of the calls applied so far, and a call that writes has read them. -/
structure Inv (row : Option (List BackupMirror)) (s : Store) : Prop where
  serial : s.chain.Serial
  merged : s.row = row.map fun mirrors => merged mirrors s.updates
  read : ∀ (i : Nat) (link : Link MirrorCall Running Outcome) (mirrors : List BackupMirror),
    s.chain.links[i]? = some link → link.phase = .running (.writing mirrors) →
      ∃ held, s.row = some held ∧ mirrors = link.call.apply held
  absent : ∀ (i : Nat), s.chain.outcomeAt i = some .absent → s.row = none

theorem updates_setPhase (hlink : s.chain.links[i]? = some link)
    (hold : link.phase ≠ .settled .updated) (hnew : phase ≠ .settled .updated) :
    (s.setPhase i phase).updates = s.updates := by
  refine filterMap_modify_none fun other hother => ?_
  cases hlink.symm.trans hother
  rw [applied, applied, if_neg hnew, if_neg hold]

theorem Inv.setPhase (h : Inv row s) (hlink : s.chain.links[i]? = some link)
    (hold : link.phase ≠ .settled .updated) (hnew : phase ≠ .settled .updated)
    (hserial : (s.chain.setPhase i phase).Serial)
    (hread : ∀ mirrors, phase = .running (.writing mirrors) →
      ∃ held, s.row = some held ∧ mirrors = link.call.apply held)
    (habsent : phase = .settled .absent → s.row = none) : Inv row (s.setPhase i phase) where
  serial := hserial
  merged := by
    rw [updates_setPhase hlink hold hnew]
    exact h.merged
  read j link' mirrors hlink' hphase := by
    rw [Store.setPhase, Chain.getElem?_setPhase] at hlink'
    obtain ⟨old, hold', heq⟩ := Option.map_eq_some_iff.mp hlink'
    by_cases hij : i = j
    · subst hij
      cases hlink.symm.trans hold'
      rw [if_pos rfl] at heq
      subst heq
      exact hread mirrors hphase
    · rw [if_neg hij] at heq
      subst heq
      exact h.read j old mirrors hold' hphase
  absent j hj := by
    rcases Chain.outcomeAt_setPhase_cases hj with hsame | ⟨-, hphase⟩
    · exact h.absent j hsame
    · exact habsent hphase

theorem Inv.turn (h : Inv row s) (i : Nat) : Inv row (s.turn i) := by
  unfold Store.turn
  split
  · next link hready =>
    obtain ⟨hlink, hwaiting, -⟩ := Chain.ready_eq_some.mp hready
    have hold : link.phase ≠ .settled .updated := by rw [hwaiting]; nofun
    split
    · exact h.setPhase hlink hold nofun (h.serial.begin hready) nofun nofun
    · exact h.setPhase hlink hold nofun (h.serial.begin hready) nofun nofun
  · exact h

theorem Inv.getById (h : Inv row s) (i : Nat) (ok : Bool) : Inv row (s.getById i ok) := by
  unfold Store.getById
  split
  · next call before hlink =>
    have hold : (⟨call, before, .running .reading⟩ : Link MirrorCall Running Outcome).phase ≠
        .settled .updated := nofun
    split
    · split
      · next hrow =>
          exact h.setPhase hlink hold nofun (h.serial.advance hlink rfl) nofun fun _ => hrow
      · next mirrors hrow =>
        exact h.setPhase hlink hold nofun (h.serial.advance hlink rfl)
          (fun held heq => ⟨mirrors, hrow, by cases heq; rfl⟩) nofun
    · exact h.setPhase hlink hold nofun (h.serial.advance hlink rfl) nofun nofun
  · exact h

/-- The write of a call: it is the last of the calls that were applied. -/
theorem Inv.update (h : Inv row s) (i : Nat) (ok : Bool) : Inv row (s.update i ok) := by
  unfold Store.update
  split
  · next call before mirrors hlink =>
    have hold :
        (⟨call, before, .running (.writing mirrors)⟩ : Link MirrorCall Running Outcome).phase ≠
        .settled .updated := by
      rintro ⟨⟩
    split
    · obtain ⟨held, hrow, hmirrors⟩ := h.read i _ mirrors hlink rfl
      have hmirrors : mirrors = call.apply held := hmirrors
      have hlater : ∀ j link, i < j → s.chain.links[j]? = some link → link.phase = .waiting := by
        intro j link hij hj
        by_contra hbegun
        have hsettled := h.serial.begun i j link hij hj hbegun
        rw [Chain.outcomeAt, hlink] at hsettled
        cases hsettled
      have hupdates : (s.setPhase i (.settled .updated)).updates = s.updates ++ [call] := by
        refine filterMap_modify_last hlink (if_neg hold) (if_pos rfl) fun j link hij hj => ?_
        rw [applied, hlater j link hij hj]
        rfl
      refine ⟨h.serial.advance hlink rfl, ?_, fun j link' held' hlink' hphase => ?_, fun j hj => ?_⟩
      · have hbefore := h.merged
        rw [hrow] at hbefore ⊢
        obtain ⟨first, hfirst, hheld⟩ := Option.map_eq_some_iff.mp hbefore.symm
        have hafter : Mirrors.merged first (s.updates ++ [call]) = call.apply held := by
          rw [Mirrors.merged, List.foldl_append]
          exact congrArg call.apply hheld
        rw [hfirst, Option.map_some, Option.map_some, hmirrors]
        exact congrArg some ((congrArg (Mirrors.merged first) hupdates).trans hafter).symm
      · -- No other call runs, so none has read what is overwritten.
        rw [Store.setPhase, Chain.getElem?_setPhase] at hlink'
        obtain ⟨old, hold', heq⟩ := Option.map_eq_some_iff.mp hlink'
        by_cases hij : i = j
        · rw [if_pos hij] at heq
          subst heq
          cases hphase
        · rw [if_neg hij] at heq
          subst heq
          exact absurd (h.serial.running_unique hlink rfl hold' hphase) hij
      · rcases Chain.outcomeAt_setPhase_cases hj with hsame | ⟨-, hphase⟩
        · rw [h.absent j hsame] at hrow
          cases hrow
        · cases hphase
    · exact h.setPhase hlink hold (by simp) (h.serial.advance hlink rfl) (by simp) (by simp)
  · exact h

theorem Inv.call (h : Inv row s) (call : MirrorCall) :
    Inv row { s with chain := s.chain.enqueue call } where
  serial := h.serial.enqueue call
  merged := by
    rw [h.merged]
    congr 2
    simp [Store.updates, Chain.enqueue, applied]
  read i link mirrors hlink hphase := by
    rcases Chain.enqueue_cases hlink with hold | ⟨-, rfl⟩
    · exact h.read i link mirrors hold hphase
    · cases hphase
  absent i hi := h.absent i (Chain.outcomeAt_enqueue.mp hi)

theorem Inv.cleanup (h : Inv row s) (i : Nat) : Inv row { s with chain := s.chain.release i } where
  serial := h.serial.release i
  merged := by
    rw [h.merged, Store.updates, Store.updates, Chain.release_links]
  read j link mirrors hlink hphase :=
    h.read j link mirrors (by rwa [Chain.release_links] at hlink) hphase
  absent j hj := h.absent j (by rwa [Chain.outcomeAt_release] at hj)

theorem Inv.step (h : Inv row s) (l : Label) : Inv row (s.step l) := by
  cases l with
  | updateMirrorStatus call => exact h.call call
  | turn i => exact h.turn i
  | getById i ok => exact h.getById i ok
  | update i ok => exact h.update i ok
  | cleanup i => exact h.cleanup i

theorem Inv.start (row : Option (List BackupMirror)) : Inv row (Store.start row) where
  serial := .empty
  merged := by
    cases row <;> rfl
  read i link mirrors hlink _ := by simp [Store.start, Chain.empty] at hlink
  absent i hi := by simp [Store.start, Chain.empty, Chain.outcomeAt] at hi

theorem inv_run (row : Option (List BackupMirror)) (ls : List Label) :
    Inv row (Store.run row ls) := by
  have hrun : ∀ (ls : List Label) (s : Store), Inv row s → Inv row (ls.foldl Store.step s) := by
    intro ls
    induction ls with
    | nil => exact fun s h => h
    | cons l ls ih => exact fun s h => ih (s.step l) (h.step l)
  exact hrun ls _ (.start row)

/-! ## Progress -/

/-- The steps that a call still has to take. -/
def remaining (link : Link MirrorCall Running Outcome) : Nat :=
  match link.phase with
  | .waiting => 3
  | .running .reading => 2
  | .running (.writing _) => 1
  | .settled _ => 0

/-- The steps that all calls still have to take. -/
def Store.work (s : Store) : Nat := (s.chain.links.map remaining).sum

theorem sum_modify_lt {α : Type} {f : α → Nat} {g : α → α} {l : List α} {a : α}
    (ha : l[i]? = some a) (hlt : f (g a) < f a) :
    ((l.modify i g).map f).sum < (l.map f).sum := by
  induction l generalizing i with
  | nil => cases ha
  | cons first l ih =>
      cases i with
      | zero =>
          cases ha
          simpa [List.modify_zero_cons] using hlt
      | succ i =>
          have hrest := ih (i := i) (by simpa using ha)
          simpa [List.modify_succ_cons] using hrest

theorem work_setPhase (hlink : s.chain.links[i]? = some link)
    (hlt : remaining { link with phase := phase } < remaining link) :
    (s.setPhase i phase).work < s.work := sum_modify_lt hlink hlt

/-- The first call that has not settled can take a step, and no other call keeps it from it. -/
theorem work_decreases (h : s.chain.Serial) (hlink : s.chain.links[i]? = some link)
    (hopen : link.phase.outcome = none) (hfirst : ∀ j < i, (s.chain.outcomeAt j).isSome) :
    ∃ l, l.isCall = false ∧ (s.step l).work < s.work := by
  obtain ⟨call, before, phase⟩ := link
  cases phase with
  | waiting =>
      refine ⟨.turn i, rfl, ?_⟩
      have hready := h.ready_of_settled hlink rfl hfirst
      simp only [Store.step, Store.turn, hready]
      split
      · exact work_setPhase hlink (by simp [remaining])
      · exact work_setPhase hlink (by simp [remaining])
  | running running =>
      cases running with
      | reading =>
          refine ⟨.getById i true, rfl, ?_⟩
          simp only [Store.step, Store.getById, hlink, if_true]
          split
          · exact work_setPhase hlink (by simp [remaining])
          · exact work_setPhase hlink (by simp [remaining])
      | writing mirrors =>
          refine ⟨.update i true, rfl, ?_⟩
          simp only [Store.step, Store.update, hlink, if_true]
          exact work_setPhase hlink (by simp [remaining])
  | settled o => cases hopen

/-! ## Every update is applied -/

/-- What is asked of the state after a run over a backup with the mirrors `row`. -/
structure EveryUpdateApplied (row : Option (List BackupMirror)) (s : Store) : Prop where
  /-- The mirrors are those of the calls that settled with an update,
  once each and in call order. -/
  inOrder : s.row = row.map fun mirrors => merged mirrors s.updates
  /-- No call is rejected but by a failure of its own read or write. -/
  own : ∀ i, s.chain.outcomeAt i ≠ some .passedOn
  absent : ∀ i, s.chain.outcomeAt i = some .absent → row = none
  /-- As long as a call has not settled, a step brings the calls nearer to their end. -/
  progress : (∃ link ∈ s.chain.links, link.phase.outcome = none) →
    ∃ l, l.isCall = false ∧ (s.step l).work < s.work

/-- The turn of a call comes while the call it waits for is one that was rejected. -/
def passesOn (s : Store) : Label → Bool
  | .turn i => (s.chain.ready i).any s.follows
  | _ => false

/-- What a step does to the outcomes: nothing, or one call settles or goes on. -/
theorem step_outcomes (s : Store) (l : Label) :
    (∀ j, (s.step l).chain.outcomeAt j = s.chain.outcomeAt j) ∧ passesOn s l = false ∨
      ∃ i phase, (∀ j, (s.step l).chain.outcomeAt j = (s.chain.setPhase i phase).outcomeAt j) ∧
        s.chain.outcomeAt i = none ∧ (∃ link, s.chain.links[i]? = some link) ∧
        (phase = .settled .passedOn ↔ passesOn s l = true) := by
  have hopen : ∀ {i : Nat} {link : Link MirrorCall Running Outcome}, s.chain.links[i]? = some link →
      link.phase.outcome = none → s.chain.outcomeAt i = none := by
    intro i link hlink hphase
    rw [Chain.outcomeAt, hlink, Option.bind_some, hphase]
  cases l with
  | updateMirrorStatus call =>
      exact .inl ⟨fun j => Option.ext fun o => Chain.outcomeAt_enqueue, rfl⟩
  | cleanup i => exact .inl ⟨fun j => Chain.outcomeAt_release, rfl⟩
  | turn i =>
      simp only [Store.step, Store.turn, passesOn]
      cases hready : s.chain.ready i with
      | none => exact .inl ⟨fun j => rfl, rfl⟩
      | some link =>
          obtain ⟨hlink, hwaiting, -⟩ := Chain.ready_eq_some.mp hready
          have hnone := hopen hlink (by rw [hwaiting]; rfl)
          dsimp only [Option.any_some]
          cases hfollows : s.follows link with
          | true => exact .inr ⟨i, _, fun j => rfl, hnone, ⟨link, hlink⟩, by simp⟩
          | false => exact .inr ⟨i, _, fun j => rfl, hnone, ⟨link, hlink⟩, by simp⟩
  | getById i ok =>
      simp only [Store.step, Store.getById, passesOn]
      split
      · next call before hlink =>
        have hnone := hopen hlink rfl
        split
        · split
          · exact .inr ⟨i, _, fun j => rfl, hnone, ⟨_, hlink⟩, by simp⟩
          · exact .inr ⟨i, _, fun j => rfl, hnone, ⟨_, hlink⟩, by simp⟩
        · exact .inr ⟨i, _, fun j => rfl, hnone, ⟨_, hlink⟩, by simp⟩
      · exact .inl ⟨fun j => rfl, trivial⟩
  | update i ok =>
      simp only [Store.step, Store.update, passesOn]
      split
      · next call before mirrors hlink =>
        have hnone := hopen hlink rfl
        split
        · exact .inr ⟨i, .settled .updated, fun j => rfl, hnone, ⟨_, hlink⟩, by simp⟩
        · exact .inr ⟨i, _, fun j => rfl, hnone, ⟨_, hlink⟩, by simp⟩
      · exact .inl ⟨fun j => rfl, trivial⟩

/-- A call is rejected with the one before it in a turn of that kind, and in no other step. -/
theorem passedOn_step (s : Store) (l : Label) :
    (∃ j, (s.step l).chain.outcomeAt j = some .passedOn) ↔
      (∃ j, s.chain.outcomeAt j = some .passedOn) ∨ passesOn s l = true := by
  rcases step_outcomes s l with ⟨hsame, hnot⟩ | ⟨i, phase, houtcomes, hnone, ⟨link, hlink⟩, hphase⟩
  · simp only [hsame, hnot, Bool.false_eq_true, or_false]
  · simp only [houtcomes]
    constructor
    · rintro ⟨j, hj⟩
      rcases Chain.outcomeAt_setPhase_cases hj with hold | ⟨-, hnew⟩
      · exact .inl ⟨j, hold⟩
      · exact .inr (hphase.mp hnew)
    · rintro (⟨j, hj⟩ | hpasses)
      · exact ⟨j, Chain.outcomeAt_setPhase hnone hj⟩
      · refine ⟨i, Chain.outcomeAt_eq_some.mpr ⟨{ link with phase := phase }, ?_,
          hphase.mpr hpasses⟩⟩
        rw [Chain.getElem?_setPhase, hlink, Option.map_some, if_pos rfl]

/-- No call of a run was rejected with another one if and only if no turn passed one on. -/
theorem own_run (s : Store) (ls : List Label) :
    (∀ j, (ls.foldl Store.step s).chain.outcomeAt j ≠ some .passedOn) ↔
      (∀ j, s.chain.outcomeAt j ≠ some .passedOn) ∧
      Run.Along Store.step (fun s l => passesOn s l = false) s ls := by
  induction ls generalizing s with
  | nil => simp [Run.Along]
  | cons l ls ih =>
      have hstep := not_congr (passedOn_step s l)
      rw [List.foldl_cons, ih, Run.Along]
      simp only [not_exists, not_or, Bool.not_eq_true] at hstep
      rw [← and_assoc]
      exact and_congr_left fun _ => hstep

theorem work_of_open (h : s.chain.Serial)
    (hopen : ∃ link ∈ s.chain.links, link.phase.outcome = none) :
    ∃ l, l.isCall = false ∧ (s.step l).work < s.work := by
  -- The first call that is open has settled ones before it.
  obtain ⟨open₀, hmem, hopen₀⟩ := hopen
  obtain ⟨k, hk⟩ := List.mem_iff_getElem?.mp hmem
  have hex : ∃ i, ∃ link : Link MirrorCall Running Outcome,
      s.chain.links[i]? = some link ∧ link.phase.outcome = none :=
    ⟨k, open₀, hk, hopen₀⟩
  classical
  obtain ⟨link, hlink, hphase⟩ := Nat.find_spec hex
  refine work_decreases h hlink hphase fun j hj => ?_
  have hmin := Nat.find_min hex hj
  have hlt : j < s.chain.links.length := Nat.lt_trans hj (List.getElem?_eq_some_iff.mp hlink).1
  cases houtcome : s.chain.outcomeAt j with
  | some o => rfl
  | none =>
      refine absurd ⟨s.chain.links[j], List.getElem?_eq_getElem hlt, ?_⟩ hmin
      rw [Chain.outcomeAt, List.getElem?_eq_getElem hlt] at houtcome
      exact houtcome

/-- Every update is applied exactly in the runs in which no turn passes a rejection on. -/
theorem mirror_updates_applied (row : Option (List BackupMirror)) (ls : List Label) :
    EveryUpdateApplied row (Store.run row ls) ↔
      Run.Along Store.step (fun s l => passesOn s l = false) (Store.start row) ls := by
  have hinv := inv_run row ls
  have hown := own_run (Store.start row) ls
  constructor
  · intro h
    exact (hown.mp h.own).2
  · intro h
    refine ⟨hinv.merged, hown.mpr ⟨fun j hj => ?_, h⟩, fun i hi => ?_, work_of_open hinv.serial⟩
    · simp [Store.start, Chain.empty, Chain.outcomeAt] at hj
    · have hnone := hinv.absent i hi
      rw [hinv.merged, Option.map_eq_none_iff] at hnone
      exact hnone

/-- A read of the first call fails while the second call waits for it. -/
theorem second_update_rejected :
    ¬ EveryUpdateApplied (some []) (Store.run (some [])
      [.updateMirrorStatus ⟨"r1", { status := some .started }⟩,
        .updateMirrorStatus ⟨"r2", { status := some .started }⟩, .turn 0, .getById 0 false,
        .cleanup 0, .turn 1]) :=
  fun h => h.own 1 (by decide +kernel)

end Pluton.Mirrors
