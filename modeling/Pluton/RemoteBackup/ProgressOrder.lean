-- SUMMARY: Whatever the order of delivery, progress moves forward and a finished backup stays.
import Pluton.RemoteBackup.Progress

/-!
# The order of progress

An event is applied only behind the attempt and sequence that the row has. Within an attempt all
that is written lies over what was there, so a row only moves forward. A row that is terminal or
not in progress is not touched.
-/
namespace Pluton.RemoteBackup

/-! ## Moving forward -/

/-- The attempt and sequence of a row. -/
def Tracked.key (row : Tracked) : Int × Int :=
  ((row.progressStats.bind (·.remoteAttempt)).getD 0,
    (row.progressStats.bind (·.remoteEventSequence)).getD 0)

/-- The progress of a row, with nothing known when there is none. -/
def Tracked.stats (row : Tracked) : ProgressStats := row.progressStats.getD {}

/-- Attempts first, then sequences. -/
def Before (first second : Int × Int) : Prop :=
  first.1 < second.1 ∨ first.1 = second.1 ∧ first.2 < second.2

/-- A counter that was there is still there and has not fallen. -/
def Risen (old new : Option Rat) : Prop :=
  ∀ value, old = some value → ∃ value', new = some value' ∧ value ≤ value'

structure Grown (old new : ProgressStats) : Prop where
  bytesProcessed : Risen old.bytesProcessed new.bytesProcessed
  filesProcessed : Risen old.filesProcessed new.filesProcessed
  totalBytesProcessed : Risen old.totalBytesProcessed new.totalBytesProcessed
  totalFilesProcessed : Risen old.totalFilesProcessed new.totalFilesProcessed
  backupStage : rank old.backupStage ≤ rank new.backupStage

/-- A row at two times: the key has not gone back, and within an attempt nothing else has. -/
structure Forward (old new : Tracked) : Prop where
  key : old.key = new.key ∨ Before old.key new.key
  stats : old.key.1 = new.key.1 → Grown old.stats new.stats
  started : old.key.1 = new.key.1 → old.status = some .started → new.status = some .started

/-- An event may still change the row. -/
def Tracked.Active (row : Tracked) : Prop := row.inProgress = true ∧ terminal row.status = false

section
variable {a b c : Int × Int} {x y z : Option Rat} {s t u : ProgressStats} {old row new : Tracked}

theorem Before.trans (h : Before a b) (h' : Before b c) : Before a c := by
  unfold Before at *
  omega

theorem Risen.refl (x : Option Rat) : Risen x x := fun value h => ⟨value, h, Rat.le_refl⟩

theorem Risen.trans (h : Risen x y) (h' : Risen y z) : Risen x z := by
  intro value hvalue
  obtain ⟨middle, hmiddle, hle⟩ := h value hvalue
  obtain ⟨last, hlast, hle'⟩ := h' middle hmiddle
  exact ⟨last, hlast, Rat.le_trans hle hle'⟩

theorem Grown.refl (s : ProgressStats) : Grown s s :=
  ⟨.refl _, .refl _, .refl _, .refl _, Int.le_refl _⟩

theorem Grown.trans (h : Grown s t) (h' : Grown t u) : Grown s u where
  bytesProcessed := h.bytesProcessed.trans h'.bytesProcessed
  filesProcessed := h.filesProcessed.trans h'.filesProcessed
  totalBytesProcessed := h.totalBytesProcessed.trans h'.totalBytesProcessed
  totalFilesProcessed := h.totalFilesProcessed.trans h'.totalFilesProcessed
  backupStage := Int.le_trans h.backupStage h'.backupStage

theorem Forward.refl (row : Tracked) : Forward row row := ⟨.inl rfl, fun _ => .refl _, fun _ h => h⟩

theorem Forward.attempt_le (h : Forward old new) : old.key.1 ≤ new.key.1 := by
  rcases h.key with heq | hbefore
  · exact Int.le_of_eq (congrArg Prod.fst heq)
  · unfold Before at hbefore
    omega

theorem Forward.trans (h : Forward old row) (h' : Forward row new) : Forward old new := by
  have hle := h.attempt_le
  have hle' := h'.attempt_le
  refine ⟨?_, fun hsame => ?_, fun hsame hstarted => ?_⟩
  · rcases h.key with heq | hbefore
    · exact heq ▸ h'.key
    · exact .inr (h'.key.elim (fun heq => heq ▸ hbefore) hbefore.trans)
  · exact (h.stats (by omega)).trans (h'.stats (by omega))
  · exact h'.started (by omega) (h.started (by omega) hstarted)

end

/-! ## One event -/

section
variable {backup : Tracked} {commandId : String} {attempt sequence : Int}
  {event : RemoteProgressEvent} {status : BackupStatus} {stats : ProgressStats} {rows : Backups}
  {d : Delivery} {id : String} {old row : Tracked}

theorem risen_max (x : Option Rat) (other : Rat) : Risen x (some (max (number x) other)) := by
  rintro value rfl
  have hle : value ≤ number (some value) := by
    by_cases hpos : 0 ≤ value
    · rw [number, if_pos hpos]
    · rw [number, if_neg hpos]
      exact Rat.le_of_lt (Rat.not_le.mp hpos)
  exact ⟨_, rfl, Rat.le_trans hle (le_max_left _ _)⟩

/-- What an event writes lies over what was there. -/
theorem grown_mergeStats (current : Option ProgressStats) :
    Grown (current.getD {}) (mergeStats current commandId attempt sequence event) := by
  have hstage : ∀ old new : Option String,
      rank old ≤ rank (if 0 ≤ rank new ∧ rank old ≤ rank new then new else old) := by
    intro old new
    split
    next h => exact h.2
    · exact Int.le_refl _
  unfold mergeStats
  dsimp only
  split
  all_goals exact ⟨risen_max _ _, risen_max _ _, risen_max _ _, risen_max _ _, hstage _ _⟩

theorem mergeStats_key (current : Option ProgressStats) (commandId : String)
    (attempt sequence : Int) (event : RemoteProgressEvent) :
    (mergeStats current commandId attempt sequence event).remoteAttempt = some attempt ∧
      (mergeStats current commandId attempt sequence event).remoteEventSequence =
        some sequence := by
  unfold mergeStats
  dsimp only
  split
  all_goals exact ⟨rfl, rfl⟩

theorem merge_eq_some
    (h : mergeRemoteProgress backup commandId attempt sequence event = some (status, stats)) :
    backup.Active ∧ Before backup.key (attempt, sequence) ∧
      Forward backup { backup with status := some status, progressStats := some stats } ∧
      ({ backup with status := some status,
                     progressStats := some stats } : Tracked).key = (attempt, sequence) := by
  simp only [mergeRemoteProgress] at h
  split at h
  · cases h
  next hactive =>
  split at h
  · cases h
  split at h
  · cases h
  next hattempt =>
  split at h
  · cases h
  next hsequence =>
  simp only [Option.some.injEq, Prod.mk.injEq] at h
  obtain ⟨rfl, rfl⟩ := h
  simp only [Bool.or_eq_true, Bool.not_eq_true', not_or, Bool.not_eq_false,
    Bool.not_eq_true] at hactive
  simp only [Bool.and_eq_true, Bool.not_eq_true', decide_eq_true_eq,
    decide_eq_false_iff_not] at hsequence
  -- The guards on the attempt and the sequence say that the key grows.
  have hbefore : Before backup.key (attempt, sequence) := by
    unfold Before Tracked.key
    dsimp only
    omega
  have hkey : ∀ current status, ({ backup with
      status, progressStats := some (mergeStats current commandId attempt sequence event) } :
      Tracked).key = (attempt, sequence) := by
    intro current status
    obtain ⟨hattempt, hsequence⟩ := mergeStats_key current commandId attempt sequence event
    simp only [Tracked.key, Option.bind_some, hattempt, hsequence, Option.getD_some]
  refine ⟨hactive, hbefore, ⟨.inr ?_, fun hsame => ?_, fun hsame hstarted => ?_⟩, hkey _ _⟩
  · rw [hkey]
    exact hbefore
  · rw [hkey] at hsame
    -- With the same key the attempt is the same, so this is no retry.
    have hretry : ¬ (backup.progressStats.bind (·.remoteAttempt)).getD 0 < attempt := fun hlt =>
      absurd hsame (Int.ne_of_lt hlt)
    simp only [decide_eq_true_eq, if_neg hretry]
    exact grown_mergeStats _
  · rw [hkey] at hsame
    have hretry : ¬ (backup.progressStats.bind (·.remoteAttempt)).getD 0 < attempt := fun hlt =>
      absurd hsame (Int.ne_of_lt hlt)
    have hqueued : ¬ backup.status = some .queued := by
      rw [hstarted]
      nofun
    simp only [decide_eq_true_eq, hretry, hqueued, or_self, and_false, if_false]

/-- A delivery leaves the table, or moves one active row forward to the event's key. -/
theorem update_cases (rows : Backups) (d : Delivery) : updateRemoteProgress rows d = (rows, none) ∨
    ∃ current row, rows d.id = some current ∧ current.Active ∧
      Before current.key (d.attempt, d.sequence) ∧
      row.key = (d.attempt, d.sequence) ∧ Forward current row ∧
      updateRemoteProgress rows d = (Function.update rows d.id (some row), some row) := by
  unfold updateRemoteProgress
  cases hcurrent : rows d.id with
  | none => exact .inl rfl
  | some current =>
      dsimp only
      by_cases hscope : current.planId ≠ some d.planId ∨ current.sourceId = "main"
      · rw [if_pos hscope]
        exact .inl rfl
      rw [if_neg hscope]
      cases hmerge : mergeRemoteProgress current d.commandId d.attempt d.sequence d.event with
      | none => exact .inl rfl
      | some merged =>
          obtain ⟨hactive, hbefore, hforward, hkey⟩ := merge_eq_some hmerge
          exact .inr ⟨current, _, rfl, hactive, hbefore, hkey, hforward, rfl⟩

/-! ## Runs -/

theorem deliveries_forward {rows : Backups} {old : Tracked} (ds : List Delivery)
    (hold : rows id = some old) :
    ∃ new, run rows (ds.map .deliver) id = some new ∧ Forward old new := by
  induction ds generalizing rows old with
  | nil => exact ⟨old, hold, .refl old⟩
  | cons d ds ih =>
      have hstep : ∃ next, (updateRemoteProgress rows d).1 id = some next ∧ Forward old next := by
        rcases update_cases rows d with hnone | ⟨current, row, hcurrent, -, -, -, hforward, hupdate⟩
        · rw [hnone]
          exact ⟨old, hold, .refl old⟩
        · rw [hupdate]
          by_cases hid : id = d.id
          · subst hid
            obtain rfl := Option.some.inj (hold.symm.trans hcurrent)
            exact ⟨row, Function.update_self .., hforward⟩
          · exact ⟨old, (Function.update_of_ne hid _ _).trans hold, .refl old⟩
      obtain ⟨next, hnext, hforward⟩ := hstep
      obtain ⟨new, hnew, hmore⟩ := ih hnext
      exact ⟨new, hnew, hforward.trans hmore⟩

/-- Deliveries do not touch a row that is not active. -/
theorem deliveries_frozen {rows : Backups} (ds : List Delivery)
    (hidle : ∀ row, rows id = some row → ¬ row.Active) :
    run rows (ds.map .deliver) id = rows id := by
  induction ds generalizing rows with
  | nil => rfl
  | cons d ds ih =>
      have hsame : (updateRemoteProgress rows d).1 id = rows id := by
        rcases update_cases rows d with hnone | ⟨current, row, hcurrent, hactive, -, -, -, hupdate⟩
        · rw [hnone]
        · rw [hupdate]
          refine Function.update_of_ne (fun hid => ?_) _ _
          exact hidle current (hid ▸ hcurrent) hactive
      exact (ih fun row hrow => hidle row (hsame ▸ hrow)).trans hsame

theorem run_terminal {rows : Backups} (steps : List Step) (hrow : rows id = some row)
    (hterminal : terminal row.status = true) :
    ∃ row', run rows steps id = some row' ∧ terminal row'.status = true := by
  induction steps generalizing rows row with
  | nil => exact ⟨row, hrow, hterminal⟩
  | cons step steps ih =>
      have hstep : ∃ next, step.apply rows id = some next ∧ terminal next.status = true := by
        cases step with
        | deliver d =>
            have hidle : ∀ other, rows id = some other →
                ¬ other.Active := fun other hother hactive => by
              obtain rfl := Option.some.inj (hrow.symm.trans hother)
              exact Bool.false_ne_true (hactive.2.symm.trans hterminal)
            exact ⟨row, (deliveries_frozen [d] hidle).trans hrow, hterminal⟩
        | finish other status ends inProgress progressStats =>
            by_cases hid : id = other
            · subst hid
              refine ⟨_, (Function.update_self ..).trans (congrArg _ hrow), ends⟩
            · exact ⟨row, (Function.update_of_ne hid _ _).trans hrow, hterminal⟩
      obtain ⟨next, hnext, hterminal'⟩ := hstep
      exact ih hnext hterminal'

/-- The keys that a run applies come one after the other, all behind that of the row. -/
theorem applied_before {rows : Backups} (steps : List Step) :
    (applied id rows steps).Pairwise Before ∧
      ∀ row, rows id = some row →
        ∀ key ∈ applied id rows steps, row.Active ∧ Before row.key key := by
  induction steps generalizing rows with
  | nil => exact ⟨.nil, fun row _ key hmem => absurd hmem List.not_mem_nil⟩
  | cons step steps ih =>
      cases step with
      | deliver d =>
          rw [applied]
          rcases update_cases rows d with hnone | ⟨current, row, hcurrent, hactive,
            hbefore, hkey, -, hupdate⟩
          · rw [hnone, if_neg fun h => Bool.false_ne_true h.2]
            exact ih
          · rw [hupdate]
            by_cases hid : d.id = id
            · subst hid
              obtain ⟨hpairs, hrest⟩ := @ih (Function.update rows d.id (some row))
              have hlater : ∀ key ∈ applied d.id (Function.update rows d.id (some row)) steps,
                  Before (d.attempt, d.sequence) key :=
                fun key hmem => hkey ▸ (hrest row (Function.update_self ..) key hmem).2
              rw [if_pos ⟨rfl, rfl⟩]
              refine ⟨.cons hlater hpairs, fun old hold key hmem => ?_⟩
              obtain rfl := Option.some.inj (hcurrent.symm.trans hold)
              rcases List.mem_cons.mp hmem with rfl | hmem
              · exact ⟨hactive, hbefore⟩
              · exact ⟨hactive, hbefore.trans (hlater key hmem)⟩
            · obtain ⟨hpairs, hrest⟩ := @ih (Function.update rows d.id (some row))
              rw [if_neg fun h => hid h.1]
              refine ⟨hpairs, fun old hold => hrest old ?_⟩
              rw [Function.update_of_ne (Ne.symm hid)]
              exact hold
      | finish other status ends inProgress progressStats =>
          have hskip :
              applied id rows (.finish other status ends inProgress progressStats :: steps) =
              applied id
                ((Step.finish other status ends inProgress progressStats).apply rows) steps := rfl
          rw [hskip]
          refine ⟨ih.1, fun old hold key hmem => ?_⟩
          by_cases hid : id = other
          · -- the row is terminal from here on, so nothing is applied any more
            subst hid
            have hnew : (Step.finish id status ends inProgress progressStats).apply rows id =
                some { old with status := some status, inProgress, progressStats } := by
              rw [Step.apply, Function.update_self, hold]
              rfl
            have hactive := (ih.2 _ hnew key hmem).1
            exact absurd (hactive.2.symm.trans ends) Bool.false_ne_true
          · exact ih.2 old ((Function.update_of_ne hid _ _).trans hold) key hmem

/-- In every run from every table: rows that are terminal or not in progress are not touched by
events, terminal ones stay terminal, the applied events are strictly ordered, and between events a
row only moves forward. -/
theorem remoteProgress_ordered (rows : Backups) (steps : List Step) (id : String) :
    (∀ (pre : List Step) (ds : List Delivery) (post : List Step),
      steps = pre ++ ds.map .deliver ++ post →
      (∀ row, run rows pre id = some row → row.inProgress = false ∨ terminal row.status = true) →
        run rows (pre ++ ds.map .deliver) id = run rows pre id) ∧
    (∀ pre post, steps = pre ++ post → ∀ row, run rows pre id = some row →
      terminal row.status = true →
      ∃ row', run rows steps id = some row' ∧ terminal row'.status = true) ∧
    (applied id rows steps).Pairwise Before ∧
    (∀ (pre : List Step) (ds : List Delivery) (post : List Step),
      steps = pre ++ ds.map .deliver ++ post → ∀ old, run rows pre id = some old →
      ∃ new, run rows (pre ++ ds.map .deliver) id = some new ∧ Forward old new) := by
  have happend : ∀ pre post : List Step, run rows (pre ++ post) = run (run rows pre) post :=
    fun pre post => List.foldl_append
  refine ⟨fun pre ds post _ hidle => ?_, ?_, (applied_before steps).1,
    fun pre ds post _ old hold => ?_⟩
  · rw [happend]
    refine deliveries_frozen ds fun row hrow hactive => ?_
    rcases hidle row hrow with hstopped | hterminal
    · exact Bool.false_ne_true (hstopped.symm.trans hactive.1)
    · exact Bool.false_ne_true (hactive.2.symm.trans hterminal)
  · rintro pre post rfl row hrow hterminal
    rw [happend]
    exact run_terminal post hrow hterminal
  · rw [happend]
    exact deliveries_forward ds hold

end

end Pluton.RemoteBackup
