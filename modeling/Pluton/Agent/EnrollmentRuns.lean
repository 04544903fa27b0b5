-- SUMMARY: Every run of enrollments and revocations: one agent for each used token.
import Pluton.Agent.EnrollmentChanges

/-!
# Enrollments of a run

Calls interleave at their `await`s and the process may end at any moment, also between a
transaction and the answer of its call. Whatever the order, the enrollments that were
committed are those of the tables: each used up a token of its own, and each left a device,
an identity and a first command.
-/
namespace Pluton.Agent.Enrollment

open Await

variable {prim : Replay.Primitives} {db db' db₀ : Database} {g : List Commit} {s s' : State}

/-! ## Committed enrollments -/

/-- The history of the enrollments that a run has committed. -/
def committed (prim : Replay.Primitives) (g : List Commit) (s : State) :
    Label Call Unit → List Commit
  | .resume i _ =>
    match s.tasks[i]? with
    | some ⟨_, .waiting (.enroll token inventory drawn)⟩ =>
      if commits prim s.clock s.shared token inventory drawn then g ++ [⟨i, token, drawn⟩] else g
    | _ => g
  | _ => g

/-- The identity was there at the start, or is that of an enrollment that was committed. -/
def Originates (db₀ : Database) (g : List Commit) (row : AgentIdentity) : Prop :=
  (∃ old ∈ db₀.identities.rows, old.agentId = row.agentId) ∨
    ∃ commit ∈ g, commit.drawn.agentId = row.agentId

/-- The call of a committed enrollment: it is answered so, or will be, unless
the process ended before. -/
def Stands (s : State) (commit : Commit) : Prop :=
  ∃ inventory phase,
    s.tasks[commit.call]? = some ⟨.enroll commit.token inventory commit.drawn, phase⟩ ∧
      (answerOf phase = some commit.drawn.answer ∨ phase = .lost)

/-- The enrollments of a run that starts with `db₀`, against its tables. -/
structure Sound (prim : Replay.Primitives) (db₀ : Database) (g : List Commit) (s : State) :
    Prop where
  inTime : s.shared.InTime
  tells : ∀ {i : Nat} {c phase}, s.tasks[i]? = some ⟨c, phase⟩ → Says s.shared c phase
  backed : ∀ commit ∈ g, Backed s.shared (hashToken prim commit.token) commit.drawn
  once : g.Pairwise fun commit commit' => hashToken prim commit.token ≠ hashToken prim commit'.token
  gained : Gained db₀ s.shared g.length
  origin : ∀ row ∈ s.shared.identities.rows, Originates db₀ g row
  stands : ∀ commit ∈ g, Stands s commit
  answered : ∀ {i : Nat} {c phase ret}, s.tasks[i]? = some ⟨c, phase⟩ → answerOf phase = some ret →
    ret.isEnrolled = true → ∃ commit ∈ g, commit.call = i ∧ ret = commit.drawn.answer

theorem sound_start (prim : Replay.Primitives) (clock : Nat) (h : db₀.InTime) :
    Sound prim db₀ [] ⟨clock, db₀, []⟩ where
  inTime := h
  tells := nofun
  backed := nofun
  once := .nil
  gained := ⟨rfl, rfl, rfl, rfl⟩
  origin row hrow := .inl ⟨row, hrow, rfl⟩
  stands := nofun
  answered := nofun

theorem Change.origin (h : Change db db') :
    ∀ row ∈ db'.identities.rows, ∃ old ∈ db.identities.rows, old.agentId = row.agentId := by
  intro row hrow
  cases h with
  | kept tokens devices identities commands => exact ⟨row, identities ▸ hrow, rfl⟩
  | token hnew h => exact ⟨row, hrow, rfl⟩
  | revokeToken h => exact ⟨row, hrow, rfl⟩
  | identities h hcond hset =>
    rw [h] at hrow
    obtain ⟨old, hold, rfl⟩ := Table.mem_update.mp hrow
    refine ⟨old, hold, ?_⟩
    split
    · exact (hset old).1.symm
    · rfl
  | devices h => exact ⟨row, hrow, rfl⟩

/-! ## Steps that commit nothing -/

/-- A call goes on, or is lost: an answer that it has it keeps, and it comes by no agent. -/
structure Follows (c : Call) (phase : Phase Loc Ret) (c' : Call) (phase' : Phase Loc Ret) :
    Prop where
  call : c' = c
  kept : ∀ {ret}, answerOf phase = some ret ∨ phase = .lost →
    answerOf phase' = some ret ∨ phase' = .lost
  fresh : ∀ {ret}, answerOf phase' = some ret → ret.isEnrolled = true → answerOf phase = some ret

theorem Follows.refl (c : Call) (phase : Phase Loc Ret) : Follows c phase c phase :=
  ⟨rfl, id, fun h _ => h⟩

/-- The rows behind what was committed stay, and each call goes on as `Follows` says. -/
theorem Sound.next (h : Sound prim db₀ g s) (hchange : Change s.shared s'.shared)
    (hsaid : ∀ {i : Nat} {c phase}, s'.tasks[i]? = some ⟨c, phase⟩ → Says s'.shared c phase)
    (hold : ∀ {i : Nat} {c phase}, s.tasks[i]? = some ⟨c, phase⟩ →
      ∃ c' phase', s'.tasks[i]? = some ⟨c', phase'⟩ ∧ Follows c phase c' phase')
    (hnew : ∀ {i : Nat} {c' phase' ret}, s'.tasks[i]? = some ⟨c', phase'⟩ →
      answerOf phase' = some ret →
      ret.isEnrolled = true →
      ∃ c phase, s.tasks[i]? = some ⟨c, phase⟩ ∧ Follows c phase c' phase') :
    Sound prim db₀ g s' where
  inTime := hchange.inTime h.inTime
  tells := hsaid
  backed commit hcommit := (h.backed commit hcommit).keeps hchange.keeps
  once := h.once
  gained := h.gained.trans hchange.gained
  origin row hrow := by
    obtain ⟨old, hmem, heq⟩ := hchange.origin row hrow
    rcases h.origin old hmem with ⟨first, hfirst, hfrom⟩ | ⟨commit, hcommit, hdrawn⟩
    · exact .inl ⟨first, hfirst, hfrom.trans heq⟩
    · exact .inr ⟨commit, hcommit, hdrawn.trans heq⟩
  stands commit hcommit := by
    obtain ⟨inventory, phase, htask, hphase⟩ := h.stands commit hcommit
    obtain ⟨c', phase', htask', hfollows⟩ := hold htask
    obtain rfl := hfollows.call
    exact ⟨inventory, phase', htask', hfollows.kept hphase⟩
  answered hi hret henrolled := by
    obtain ⟨c, phase, htask, hfollows⟩ := hnew hi hret henrolled
    exact h.answered htask (hfollows.fresh hret henrolled) henrolled

theorem sound_call (h : Sound prim db₀ g s) (c : Call) :
    Sound prim db₀ g ((service prim).step s (.call c)) := by
  have hcases : ∀ {i : Nat} {c' : Call} {phase : Phase Loc Ret},
      (s.tasks ++ [(⟨c, enter prim s.clock c⟩ : Task Call Loc Ret)])[i]? = some ⟨c', phase⟩ →
      s.tasks[i]? = some ⟨c', phase⟩ ∨ c' = c ∧ phase = enter prim s.clock c := by
    intro i c' phase hi
    rcases Nat.lt_or_ge i s.tasks.length with hlt | hge
    · rw [List.getElem?_append_left hlt] at hi
      exact .inl hi
    · rw [List.getElem?_append_right hge] at hi
      have heq := List.mem_singleton.mp (List.mem_of_getElem? hi)
      exact .inr ⟨congrArg Task.call heq, congrArg Task.phase heq⟩
  refine h.next (.kept rfl rfl rfl rfl) (fun hi => ?_) (fun hi => ?_) fun hi hret henrolled => ?_
  · rcases hcases hi with hold | ⟨rfl, rfl⟩
    · exact h.tells hold
    · exact says_enter prim s.clock s.shared _
  · exact ⟨_, _, (List.getElem?_append_left (List.getElem?_eq_some_iff.mp hi).1).trans hi,
      .refl _ _⟩
  · rcases hcases hi with hold | ⟨rfl, rfl⟩
    · exact ⟨_, _, hold, .refl _ _⟩
    · rw [unenrolled_enter prim s.clock _ _ hret] at henrolled
      cases henrolled

/-- The end of the process loses the calls that wait. -/
theorem crash_cases (t : Task Call Loc Ret) :
    t.crash = t ∨ (∃ l, t.phase = .waiting l) ∧ t.crash = ⟨t.call, .lost⟩ := by
  obtain ⟨c, phase⟩ := t
  cases phase with
  | waiting l => exact .inr ⟨⟨l, rfl⟩, rfl⟩
  | returned r => exact .inl rfl
  | lost => exact .inl rfl

theorem follows_crash (t : Task Call Loc Ret) :
    Follows t.call t.phase t.crash.call t.crash.phase := by
  rcases crash_cases t with hsame | ⟨-, hlost⟩
  · rw [hsame]
    exact .refl t.call t.phase
  · rw [hlost]
    exact ⟨rfl, fun _ => .inr rfl, nofun⟩

theorem says_crash {t : Task Call Loc Ret} (h : Says db t.call t.phase) :
    Says db t.crash.call t.crash.phase := by
  rcases crash_cases t with hsame | ⟨-, hlost⟩
  · rwa [hsame]
  · rw [hlost]
    exact .lost db t.call

theorem sound_crash (h : Sound prim db₀ g s) : Sound prim db₀ g ((service prim).step s .crash) := by
  have hmap : ∀ {i : Nat} {t}, ((service prim).step s .crash).tasks[i]? = some t →
      ∃ old, s.tasks[i]? = some old ∧ t = old.crash := by
    intro i t hi
    obtain ⟨old, hold, rfl⟩ := Option.map_eq_some_iff.mp ((List.getElem?_map ..).symm.trans hi)
    exact ⟨old, hold, rfl⟩
  refine h.next (.kept rfl rfl rfl rfl) (fun hi => ?_) (fun {i c phase} hi => ?_) fun hi _ _ => ?_
  · obtain ⟨⟨c, phase⟩, hold, heq⟩ := hmap hi
    have hsaid := says_crash (t := ⟨c, phase⟩) (h.tells hold)
    rwa [← heq] at hsaid
  · refine ⟨(Task.crash ⟨c, phase⟩).call, (Task.crash ⟨c, phase⟩).phase, ?_,
      follows_crash ⟨c, phase⟩⟩
    exact (List.getElem?_map ..).trans (by rw [hi]; rfl)
  · obtain ⟨⟨c, phase⟩, hold, heq⟩ := hmap hi
    have hfollows := follows_crash ⟨c, phase⟩
    rw [← heq] at hfollows
    exact ⟨c, phase, hold, hfollows⟩

/-! ## Turns of a call -/

/-- The tasks behind a turn of call `i`. -/
theorem getElem?_settled {i j : Nat} {t t' t'' : Task Call Loc Ret} (hi : s.tasks[i]? = some t)
    (hj : (s.tasks.set i t')[j]? = some t'') :
    (j = i ∧ t'' = t') ∨ (j ≠ i ∧ s.tasks[j]? = some t'') := by
  by_cases hji : j = i
  · subst hji
    rw [List.getElem?_set_self (List.getElem?_eq_some_iff.mp hi).1] at hj
    exact .inl ⟨rfl, (Option.some.inj hj).symm⟩
  · rw [List.getElem?_set_ne (Ne.symm hji)] at hj
    exact .inr ⟨hji, hj⟩

theorem says_settled (h : Sound prim db₀ g s) {i : Nat} {c : Call} {l : Loc}
    (hi : s.tasks[i]? = some ⟨c, .waiting l⟩) {j : Nat} {c' : Call} {phase : Phase Loc Ret}
    (hj : (s.tasks.set i ⟨c, (resume prim s.clock () s.shared l).2⟩)[j]? = some ⟨c', phase⟩) :
    Says (resume prim s.clock () s.shared l).1 c' phase := by
  rcases getElem?_settled hi hj with ⟨rfl, heq⟩ | ⟨-, hold⟩
  · cases heq
    exact says_resume prim s.clock (h.tells hi)
  · exact (h.tells hold).keeps (resume_turn prim s.clock s.shared l).keeps

theorem sound_change (h : Sound prim db₀ g s) {i : Nat} {c : Call} {l : Loc}
    (hi : s.tasks[i]? = some ⟨c, .waiting l⟩)
    (hchange : Change s.shared (resume prim s.clock () s.shared l).1)
    (hfollows : Follows c (.waiting l) c (resume prim s.clock () s.shared l).2) :
    Sound prim db₀ g { s with
      shared := (resume prim s.clock () s.shared l).1
      tasks := s.tasks.set i ⟨c, (resume prim s.clock () s.shared l).2⟩ } := by
  refine h.next hchange (says_settled h hi) (fun {j c' phase} hj => ?_) fun hj _ _ => ?_
  · by_cases hij : i = j
    · subst hij
      cases hi.symm.trans hj
      exact ⟨c, _, List.getElem?_set_self (List.getElem?_eq_some_iff.mp hi).1, hfollows⟩
    · exact ⟨c', phase, (List.getElem?_set_ne hij).trans hj, .refl c' phase⟩
  · rcases getElem?_settled hi hj with ⟨rfl, heq⟩ | ⟨-, hold⟩
    · cases heq
      exact ⟨c, .waiting l, hi, hfollows⟩
    · exact ⟨_, _, hold, .refl _ _⟩

/-- A token that one enrollment has used is not there for another. -/
theorem Enrolls.fresh {data : EnrollAgentData} {enrollment : AgentEnrollmentToken} {drawn : Drawn}
    (h : Enrolls data db enrollment db') : ¬ Backed db data.tokenHash drawn := by
  intro hbacked
  obtain ⟨used, hused, hhash, hset⟩ := hbacked.token
  obtain ⟨row, hrow, hcond, -⟩ := h.claimed
  obtain ⟨hclaim, -⟩ := Bool.and_eq_true_iff.mp hcond
  obtain ⟨hsame, hopen⟩ := Bool.and_eq_true_iff.mp hclaim
  have heq : used = row := db.tokens.eq_of_column (List.mem_cons_of_mem _ List.mem_cons_self) hused
    hrow (congrArg some hhash) (congrArg some (beq_iff_eq.mp hsame))
  rw [heq] at hset
  exact hset (Option.isNone_iff_eq_none.mp (Bool.and_eq_true_iff.mp hopen).1)

theorem sound_commits (h : Sound prim db₀ g s) {i : Nat} {c : Call} {token : String}
    {inventory : AgentInventory} {drawn : Drawn} {enrollment : AgentEnrollmentToken}
    (hi : s.tasks[i]? = some ⟨c, .waiting (.enroll token inventory drawn)⟩)
    (henrolls : Enrolls (enrollData prim s.clock token inventory drawn) s.shared enrollment
      (resume prim s.clock () s.shared (.enroll token inventory drawn)).1)
    (hphase : (resume prim s.clock () s.shared (.enroll token inventory drawn)).2 =
      .waiting (.answer drawn.answer)) :
    Sound prim db₀ (g ++ [⟨i, token, drawn⟩]) { s with
      shared := (resume prim s.clock () s.shared (.enroll token inventory drawn)).1
      tasks := s.tasks.set i
        ⟨c, (resume prim s.clock () s.shared (.enroll token inventory drawn)).2⟩ } := by
  have hcall : .enroll token inventory drawn = c := (h.tells hi).own rfl rfl
  subst hcall
  have hset : ∀ phase, (s.tasks.set i ⟨.enroll token inventory drawn, phase⟩)[i]? =
      some ⟨.enroll token inventory drawn, phase⟩ :=
    fun _ => List.getElem?_set_self (List.getElem?_eq_some_iff.mp hi).1
  have hsaid := @says_settled prim db₀ g s h i _ _ hi
  rw [hphase] at hsaid ⊢
  refine ⟨henrolls.inTime h.inTime, @hsaid, ?_, ?_, ?_, ?_, ?_, ?_⟩
  · intro commit hcommit
    rcases List.mem_append.mp hcommit with hold | hadded
    · exact (h.backed commit hold).keeps henrolls.keeps
    · rw [List.mem_singleton.mp hadded]
      exact henrolls.backed
  -- the token was not used before
  · refine List.pairwise_append.mpr ⟨h.once, List.pairwise_singleton _ _,
      fun commit hcommit last hlast hsame => ?_⟩
    have hbacked := h.backed commit hcommit
    rw [hsame, List.mem_singleton.mp hlast] at hbacked
    exact henrolls.fresh hbacked
  · rw [List.length_append]
    exact h.gained.trans henrolls.gained
  · intro row hrow
    rw [henrolls.identities] at hrow
    rcases List.mem_append.mp hrow with hold | hadded
    · rcases h.origin row hold with hfirst | ⟨commit, hcommit, hdrawn⟩
      · exact .inl hfirst
      · exact .inr ⟨commit, List.mem_append_left _ hcommit, hdrawn⟩
    · rw [List.mem_singleton.mp hadded]
      exact .inr ⟨⟨i, token, drawn⟩, List.mem_append_right _ List.mem_cons_self, rfl⟩
  -- the calls of earlier enrollments stay where they are
  · intro commit hcommit
    rcases List.mem_append.mp hcommit with hold | hadded
    · obtain ⟨inventory', phase, htask, hstands⟩ := h.stands commit hold
      have hne : i ≠ commit.call := by
        rintro rfl
        cases hi.symm.trans htask
        rcases hstands with hnone | hlost
        · cases hnone
        · cases hlost
      exact ⟨inventory', phase, (List.getElem?_set_ne hne).trans htask, hstands⟩
    · rw [List.mem_singleton.mp hadded]
      exact ⟨inventory, _, hset _, .inl rfl⟩
  · intro j c' phase ret hj hret henrolled
    rcases getElem?_settled hi hj with ⟨rfl, heq⟩ | ⟨-, hold⟩
    · cases heq
      cases hret
      exact ⟨⟨j, token, drawn⟩, List.mem_append_right _ List.mem_cons_self, rfl, rfl⟩
    · obtain ⟨commit, hcommit, hanswer⟩ := h.answered hold hret henrolled
      exact ⟨commit, List.mem_append_left _ hcommit, hanswer⟩

theorem sound_turn (h : Sound prim db₀ g s) {i : Nat} {c : Call} {l : Loc}
    (hi : s.tasks[i]? = some ⟨c, .waiting l⟩) :
    Sound prim db₀ (committed prim g s (.resume i ())) { s with
      shared := (resume prim s.clock () s.shared l).1
      tasks := s.tasks.set i ⟨c, (resume prim s.clock () s.shared l).2⟩ } := by
  have hturn := resume_turn prim s.clock s.shared l
  generalize hafter : (resume prim s.clock () s.shared l).1 = after at hturn
  generalize hphase : (resume prim s.clock () s.shared l).2 = phase at hturn
  cases hturn with
  | commits hcommits henrolls =>
    rw [← hafter] at henrolls
    have hsound := sound_commits h hi henrolls hphase
    rw [hafter, hphase] at hsound
    simpa only [committed, hi, hcommits, if_true] using hsound
  | answers =>
    have hsound := sound_change (l := .answer _) h hi (.kept rfl rfl rfl rfl)
      ⟨rfl, fun hret => hret.imp id nofun, fun hret _ => hret⟩
    have hnothing : committed prim g s (.resume i ()) = g := by simp only [committed, hi]
    rw [hnothing]
    exact hsound
  | changes hchange hunanswered huncommitted hunenrolled =>
    have hnone : answerOf (.waiting l) = none := by
      cases l with
      | answer ret => exact absurd rfl (hunanswered ret)
      | _ => rfl
    rw [← hafter] at hchange
    have hsound := sound_change h hi hchange ⟨rfl, ?_, ?_⟩
    · rw [hafter, hphase] at hsound
      cases l with
      | enroll token inventory drawn =>
        simpa only [committed, hi, huncommitted _ _ _ rfl, Bool.false_eq_true,
          if_false] using hsound
      | _ => simpa only [committed, hi] using hsound
    · rintro ret (hret | hlost)
      · cases hnone.symm.trans hret
      · cases hlost
    · intro ret hret henrolled
      rw [hphase] at hret
      cases (hunenrolled ret hret).symm.trans henrolled

theorem sound_step (h : Sound prim db₀ g s) (label : Label Call Unit) :
    Sound prim db₀ (committed prim g s label) ((service prim).step s label) := by
  cases label with
  | tick d => exact ⟨h.inTime, h.tells, h.backed, h.once, h.gained, h.origin, h.stands, h.answered⟩
  | call c => exact sound_call h c
  | crash => exact sound_crash h
  | resume i e =>
    cases hi : s.tasks[i]? with
    | none => simpa only [committed, Program.step, hi] using h
    | some task =>
      obtain ⟨c, phase⟩ := task
      cases phase with
      | waiting l =>
        simp only [Program.step, hi]
        exact sound_turn h hi
      | returned ret => simpa only [committed, Program.step, hi] using h
      | lost => simpa only [committed, Program.step, hi] using h

theorem sound_run (h : Sound prim db₀ g s) (ls : List (Label Call Unit)) :
    Sound prim db₀ ((service prim).history (committed prim) g s ls) ((service prim).run s ls) := by
  induction ls generalizing g s with
  | nil => exact h
  | cons label ls ih => exact ih (sound_step h label)

/-! ## What holds after a run -/

/-- The enrollments that a run has committed, against the tables that it started with. -/
structure Enrollments (prim : Replay.Primitives) (db₀ : Database) (g : List Commit) (s : State) :
    Prop where
  /-- A used token was used in time, and was not revoked before or after. -/
  inTime : s.shared.InTime
  /-- Each has used its token and left a device, an identity with its secret and a command. -/
  backed : ∀ commit ∈ g, Backed s.shared (hashToken prim commit.token) commit.drawn
  /-- No two have used the same token. -/
  once : g.Pairwise fun commit commit' => hashToken prim commit.token ≠ hashToken prim commit'.token
  /-- As many tokens were used, and rows added to each table. -/
  gained : Gained db₀ s.shared g.length
  origin : ∀ row ∈ s.shared.identities.rows, Originates db₀ g row
  /-- The call of each is answered so, or will be, unless the process ended before. -/
  stands : ∀ commit ∈ g, Stands s commit
  /-- An answer with an agent is that of an enrollment that was committed. -/
  answered : ∀ {i : Nat} {c ret}, s.tasks[i]? = some ⟨c, .returned ret⟩ → ret.isEnrolled = true →
    ∃ commit ∈ g, commit.call = i ∧ ret = commit.drawn.answer
  /-- A token whose revocation was answered enrolls no agent. -/
  withdrawn : ∀ {i : Nat} {id},
    s.tasks[i]? = some ⟨.revokeEnrollment id, .returned .enrollmentRevoked⟩ → Withdrawn s.shared id

/-- Whatever the order of the calls and wherever the process ends. -/
theorem enrollments_run (prim : Replay.Primitives) (clock : Nat) (db₀ : Database) (h : db₀.InTime)
    (ls : List (Label Call Unit)) :
    Enrollments prim db₀ ((service prim).history (committed prim) [] ⟨clock, db₀, []⟩ ls)
      ((service prim).run ⟨clock, db₀, []⟩ ls) := by
  have hsound := sound_run (sound_start prim clock h) ls
  exact ⟨hsound.inTime, hsound.backed, hsound.once, hsound.gained, hsound.origin, hsound.stands,
    fun hi => hsound.answered hi rfl, fun hi => (hsound.tells hi).told rfl⟩

def Database.empty : Database := ⟨.empty _, .empty _, .empty _, .empty _⟩

def sampleInventory : AgentInventory := ⟨"host", "linux", "x64", "1.0.0", none, none, "\x7b\x7d"⟩

def sampleDrawn : Drawn := ⟨"device", "agent", "secret", "encrypted", "command", "key"⟩

/-- A token is created, two enrollments race for it, and the process ends before the answer of the
one that has won. -/
def sampleRace : List (Label Call Unit) :=
  [.call (.createEnrollment "machine" "id" "token"), .resume 0 (), .resume 0 (),
    .call (.enroll "token" sampleInventory sampleDrawn),
    .call (.enroll "token" sampleInventory { sampleDrawn with
      deviceUid := "other", agentUid := "other" }),
    .resume 2 (), .resume 1 (), .resume 1 (), .crash]

/-- The second enrollment of the race is committed, it alone, and its answer is lost. -/
theorem enrollments_run_of_race :
    let g := (service Replay.samplePrimitives).history (committed Replay.samplePrimitives) []
      ⟨1000, .empty, []⟩ sampleRace
    let s := (service Replay.samplePrimitives).run ⟨1000, .empty, []⟩ sampleRace
    Enrollments Replay.samplePrimitives .empty g s ∧ g.map Commit.call = [2] ∧
      (s.tasks.map Task.phase)[2]? = some .lost :=
  ⟨enrollments_run Replay.samplePrimitives 1000 .empty (fun _ hrow => absurd hrow List.not_mem_nil)
    sampleRace, by decide, by decide⟩

end Pluton.Agent.Enrollment
