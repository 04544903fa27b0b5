-- SUMMARY: What each operation on the restores keeps while others rely on rows they have read.
import Pluton.DatabaseRestore.Service

/-!
# The rows that somebody relies on

The dispatcher and the running operation write rows by their id alone, long after they have
read them. `Sound` says that the tables are in order and that the rows of `ids` are not
deleted, those of `held` moreover past the queue; the operations keep it.
-/
namespace Pluton.DatabaseRestore

open EStateM

/-- The row waits to be imported. -/
def Status.isWaiting (status : Status) : Bool := status = .queued ∨ status = .provisioningRequired

/-- How many operations are at work, by the tables. -/
def Db.working (db : Db) : Nat :=
  (db.tests.filter (·.status == .running)).length + (db.restores.filter (·.status.isWorking)).length

/-- A deleted row stays deleted, and leases are added to rows that are imported. -/
structure Since (base db : Db) : Prop where
  kept : ∀ row ∈ base.restores, row.status = .deleted →
    ∃ row' ∈ db.restores, row'.id = row.id ∧ row'.status = .deleted
  leased : ∀ lease ∈ db.leases, (∃ old ∈ base.leases, old.restoreId = lease.restoreId) ∨
    ∃ row ∈ base.restores, row.id = lease.restoreId ∧ row.status = .importing

/-- The tables are in order. Whether a row whose deletion was requested may wait to be
imported depends on the run, so this part is under a condition. -/
structure Sound (p : Prop) (base : Db) (ids held : List String) (db : Db) : Prop where
  keys : (db.restores.map (·.id)).Nodup
  named : ∀ row ∈ db.restores, row.id ≠ ""
  testKeys : (db.tests.map (·.id)).Nodup
  exclusive : db.working ≤ 1
  plans : ∀ planId,
    (db.tests.filter fun row => row.planId == planId && row.status.isActive).length ≤ 1
  retained : (db.restores.filter (·.status != .deleted)).length ≤ 8
  unleased : ∀ row ∈ db.restores, row.status = .deleted →
    ∀ lease ∈ db.leases, lease.restoreId ≠ row.id
  live : ∀ row ∈ db.restores, row.id ∈ ids → row.status ≠ .deleted
  begun : ∀ row ∈ db.restores, row.id ∈ held → row.status.isWaiting = false
  present : ∀ id ∈ held, ∃ row ∈ db.restores, row.id = id
  deletable : p → ∀ row ∈ db.restores, row.cancelRequested = true → row.status.isWaiting = false
  since : Since base db

variable {p : Prop} {base db : Db} {ids held : List String} {id : String}

theorem Since.refl (db : Db) : Since db db where
  kept row hrow hdeleted := ⟨row, hrow, rfl, hdeleted⟩
  leased lease hlease := .inl ⟨lease, hlease, rfl⟩

namespace Sound

theorem mono (h : Sound p base ids held db) {ids' held' : List String} (hids : ids' ⊆ ids)
    (hheld : held' ⊆ held) :
    Sound p base ids' held' db :=
  { h with
    live := fun row hrow hid => h.live row hrow (hids hid)
    begun := fun row hrow hid => h.begun row hrow (hheld hid)
    present := fun id hid => h.present id (hheld hid) }

theorem rebase (h : Sound p base ids held db) : Sound p db ids held db :=
  { h with since := .refl db }

theorem get_eq_some (h : Sound p base ids held db) {row : Restore} :
    db.get id = some row ↔ row ∈ db.restores ∧ row.id = id := by
  constructor
  · intro hget
    exact ⟨List.mem_of_find?_eq_some hget, by simpa using List.find?_some hget⟩
  · rintro ⟨hrow, rfl⟩
    exact Table.find?_key h.keys hrow

end Sound

/-! ## Changes of rows -/

/-- What may happen to a row, apart from a claim and a deletion: it becomes removable, it
keeps its status, or a row that is not at work is queued. -/
structure Change (p : Prop) (held : List String) (row row' : Restore) : Prop where
  status : (row.status ≠ .deleted ∧ row'.status.isRemovable = true) ∨
    (row'.status = row.status ∧
      (row'.cancelRequested = row.cancelRequested ∨ row.id ∈ held ∨ row.status.isWorking = true)) ∨
    (row.status ≠ .deleted ∧ row'.status = .queued ∧ row.id ∉ held ∧ (p →
      row'.cancelRequested = false))

theorem not_isWaiting_of_isRemovable {status : Status} (h : status.isRemovable = true) :
    status.isWaiting = false ∧ status.isWorking = false ∧ status ≠ .deleted := by
  cases status <;> first | exact ⟨rfl, rfl, by decide⟩ | cases h

theorem not_isWaiting_of_isWorking {status : Status} (h : status.isWorking = true) :
    status.isWaiting = false := by
  cases status <;> first | rfl | cases h

namespace Change

variable {row row' : Restore}

theorem isWorking (h : Change p held row row') (hworking : row'.status.isWorking = true) :
    row.status.isWorking = true := by
  rcases h.status with ⟨-, hremovable⟩ | ⟨hsame, -⟩ | ⟨-, hqueued, -⟩
  · rw [(not_isWaiting_of_isRemovable hremovable).2.1] at hworking
    cases hworking
  · rwa [← hsame]
  · rw [hqueued] at hworking
    cases hworking

theorem deleted_iff (h : Change p held row row') :
    row'.status = .deleted ↔ row.status = .deleted := by
  rcases h.status with ⟨hlive, hremovable⟩ | ⟨hsame, -⟩ | ⟨hlive, hqueued, -⟩
  · exact iff_of_false (not_isWaiting_of_isRemovable hremovable).2.2 hlive
  · rw [hsame]
  · exact iff_of_false (by rw [hqueued]; decide) hlive

theorem begun (h : Change p held row row') (hid : row.id ∈ held)
    (hbegun : row.status.isWaiting = false) :
    row'.status.isWaiting = false := by
  rcases h.status with ⟨-, hremovable⟩ | ⟨hsame, -⟩ | ⟨-, -, hnot, -⟩
  · exact (not_isWaiting_of_isRemovable hremovable).1
  · rwa [hsame]
  · exact absurd hid hnot

theorem deletable (h : Change p held row row') (hp : p)
    (hbegun : row.id ∈ held → row.status.isWaiting = false)
    (hrow : row.cancelRequested = true → row.status.isWaiting = false)
    (hcancel : row'.cancelRequested = true) :
    row'.status.isWaiting = false := by
  rcases h.status with ⟨-, hremovable⟩ | ⟨hsame, hwhy⟩ | ⟨-, -, -, hopen⟩
  · exact (not_isWaiting_of_isRemovable hremovable).1
  · rw [hsame]
    rcases hwhy with hflag | hheld | hworking
    · exact hrow (hflag ▸ hcancel)
    · exact hbegun hheld
    · exact not_isWaiting_of_isWorking hworking
  · rw [hopen hp] at hcancel
    cases hcancel

end Change

/-- What an update owes for a row that it changes, to the lists of rows relied on afterwards. -/
structure Rewrite (p : Prop) (leases : List Lease) (ids held : List String) (row row' : Restore) :
    Prop where
  kept : row.status = .deleted → row'.status = .deleted
  unleased : row'.status = .deleted →
    row.status = .deleted ∨ ∀ lease ∈ leases, lease.restoreId ≠ row.id
  live : row.id ∈ ids → row'.status ≠ .deleted
  begun : row.id ∈ held → row'.status.isWaiting = false
  deletable : p → row'.cancelRequested = true → row'.status.isWaiting = false

theorem Sound.rewrite (h : Sound p base ids held db) {cond : Restore → Bool}
    {set : Restore → Restore} {ids' held' : List String} (hid : ∀ row, (set row).id = row.id)
    (hexclusive : ({ db with restores := Table.update db.restores cond set } : Db).working ≤ 1)
    (hset : ∀ row ∈ db.restores, cond row = true → Rewrite p db.leases ids' held' row (set row))
    (hpresent : ∀ id ∈ held', ∃ row ∈ db.restores, row.id = id)
    (hothers : ∀ row ∈ db.restores, cond row = false →
      (row.id ∈ ids' → row.id ∈ ids) ∧ (row.id ∈ held' → row.id ∈ held)) :
    Sound p base ids' held' { db with restores := Table.update db.restores cond set } := by
  -- A row of the new table is a row of the old one, or a changed one.
  have horigin : ∀ row ∈ Table.update db.restores cond set, ∃ old ∈ db.restores, row.id = old.id ∧
      (row = old ∧ cond old = false ∨ Rewrite p db.leases ids' held' old row) := by
    intro row hrow
    obtain ⟨old, hold, heq⟩ := Table.mem_update.mp hrow
    cases hcond : cond old with
    | true =>
        rw [if_pos hcond] at heq
        exact ⟨old, hold, heq ▸ hid old, .inr (heq ▸ hset old hold hcond)⟩
    | false =>
        rw [if_neg (by simp [hcond])] at heq
        exact ⟨old, hold, by rw [heq], .inl ⟨heq.symm, hcond⟩⟩
  refine ⟨Table.nodup_update hid h.keys, ?_, h.testKeys, hexclusive, h.plans, ?_,
    ?_, ?_, ?_, ?_, ?_, ?_,
    h.since.leased⟩
  · intro row hrow
    obtain ⟨old, hold, hkey, -⟩ := horigin row hrow
    rw [hkey]
    exact h.named old hold
  · refine Nat.le_trans (Table.length_filter_update_le fun row hrow hcond hlive => ?_) h.retained
    exact bne_iff_ne.mpr fun hdeleted => bne_iff_ne.mp hlive ((hset row hrow hcond).kept hdeleted)
  · intro row hrow hdeleted lease hlease
    obtain ⟨old, hold, hkey, ⟨rfl, -⟩ | hrewrite⟩ := horigin row hrow
    · exact h.unleased row hold hdeleted lease hlease
    · rw [hkey]
      rcases hrewrite.unleased hdeleted with hbefore | hnone
      · exact h.unleased old hold hbefore lease hlease
      · exact hnone lease hlease
  · intro row hrow hmem
    obtain ⟨old, hold, hkey, ⟨rfl, hcond⟩ | hrewrite⟩ := horigin row hrow
    · exact h.live row hold ((hothers row hold hcond).1 hmem)
    · exact hrewrite.live (hkey ▸ hmem)
  · intro row hrow hmem
    obtain ⟨old, hold, hkey, ⟨rfl, hcond⟩ | hrewrite⟩ := horigin row hrow
    · exact h.begun row hold ((hothers row hold hcond).2 hmem)
    · exact hrewrite.begun (hkey ▸ hmem)
  · intro id hmem
    obtain ⟨old, hold, rfl⟩ := hpresent id hmem
    refine ⟨_, Table.mem_update.mpr ⟨old, hold, rfl⟩, ?_⟩
    split
    · exact hid old
    · rfl
  · intro hp row hrow hcancel
    obtain ⟨old, hold, hkey, ⟨rfl, -⟩ | hrewrite⟩ := horigin row hrow
    · exact h.deletable hp row hold hcancel
    · exact hrewrite.deletable hp hcancel
  · intro row hrow hdeleted
    obtain ⟨old, hold, hkey, hstatus⟩ := h.since.kept row hrow hdeleted
    refine ⟨_, Table.mem_update.mpr ⟨old, hold, rfl⟩, ?_⟩
    by_cases hcond : cond old = true
    · rw [if_pos hcond]
      exact ⟨(hid old).trans hkey, (hset old hold hcond).kept hstatus⟩
    · rw [if_neg hcond]
      exact ⟨hkey, hstatus⟩

/-- An update that starts nothing leaves no more at work than there was. -/
theorem Sound.working_le (h : Sound p base ids held db) {cond : Restore → Bool}
    {set : Restore → Restore} (hset : ∀ row ∈ db.restores, cond row = true →
      (set row).status.isWorking = true → row.status.isWorking = true) :
    ({ db with restores := Table.update db.restores cond set } : Db).working ≤ 1 := by
  have hle := Table.length_filter_update_le (p := fun row : Restore => row.status.isWorking) hset
  have hbefore := h.exclusive
  simp only [Db.working] at hbefore ⊢
  omega

theorem Sound.change (h : Sound p base ids held db) {cond : Restore → Bool}
    {set : Restore → Restore} (hid : ∀ row, (set row).id = row.id)
    (hset : ∀ row ∈ db.restores, cond row = true → Change p held row (set row)) :
    Sound p base ids held { db with restores := Table.update db.restores cond set } := by
  refine h.rewrite hid (h.working_le fun row hrow hcond => (hset row hrow hcond).isWorking)
    (fun row hrow hcond => ?_)
    h.present fun _ _ _ => ⟨id, id⟩
  have hchange := hset row hrow hcond
  exact
    { kept := hchange.deleted_iff.mpr
      unleased := fun hdeleted => .inl (hchange.deleted_iff.mp hdeleted)
      live := fun hmem hdeleted => h.live row hrow hmem (hchange.deleted_iff.mp hdeleted)
      begun := fun hmem => hchange.begun hmem (h.begun row hrow hmem)
      deletable := fun hp => hchange.deletable hp (h.begun row hrow) (h.deletable hp row hrow) }

/-! ## Operations that nobody has to own a row for -/

namespace Sound

theorem requestDelete (h : Sound p base ids held db) (id : String) :
    Sound p base ids held (db.requestDelete id) := by
  unfold Db.requestDelete
  split
  · exact h
  · next row hget =>
    split
    · exact h
    · next hopen =>
      obtain ⟨hrow, hid⟩ := h.get_eq_some.mp hget
      refine h.change (fun _ => rfl) fun stored hstored hcond => ?_
      have hsame : stored = row :=
        List.inj_on_of_nodup_map h.keys hstored hrow ((beq_iff_eq.mp hcond).trans hid.symm)
      subst hsame
      have hlive : stored.status ≠ .deleted := fun hdeleted => hopen (.inl hdeleted)
      by_cases hworking : stored.status.isWorking = true
      · exact ⟨.inr (.inl ⟨if_pos hworking, .inr (.inr hworking)⟩)⟩
      · exact ⟨.inl ⟨hlive, by simp only [if_neg hworking]; rfl⟩⟩

theorem recoverInterrupted (h : Sound p base ids held db) :
    Sound p base ids held db.recoverInterrupted := by
  refine h.change (fun _ => rfl) fun row _ hworking => ⟨.inl ⟨?_, rfl⟩⟩
  rintro hdeleted
  rw [hdeleted] at hworking
  cases hworking

/-- The leases change, but no lease is for another restore. -/
theorem leases (h : Sound p base ids held db) {leases : List Lease}
    (hleases : ∀ lease ∈ leases, ∃ old ∈ db.leases, old.restoreId = lease.restoreId) :
    Sound p base ids held { db with leases } :=
  { h with
    unleased := by
      intro row hrow hdeleted lease hlease
      obtain ⟨old, hold, hsame⟩ := hleases lease hlease
      rw [← hsame]
      exact h.unleased row hrow hdeleted old hold
    since := {
      kept := h.since.kept
      leased := by
        intro lease hlease
        obtain ⟨old, hold, hsame⟩ := hleases lease hlease
        rw [← hsame]
        exact h.since.leased old hold } }

theorem removeLease (h : Sound p base ids held db) (id : String) :
    Sound p base ids held (db.removeLease id) :=
  h.leases fun lease hlease => ⟨lease, (List.mem_filter.mp hlease).1, rfl⟩

theorem leaseState (h : Sound p base ids held db) (id : String) (state : LeaseState) :
    Sound p base ids held (db.leaseState id state) := by
  refine h.leases fun lease hlease => ?_
  obtain ⟨old, hold, heq⟩ := Table.mem_update.mp hlease
  refine ⟨old, hold, ?_⟩
  rw [← heq]
  split <;> rfl

/-! ## Recovery tests -/

theorem tests (h : Sound p base ids held db) {tests : List RecoveryTest}
    (hkeys : (tests.map (·.id)).Nodup) (hexclusive : ({ db with tests } : Db).working ≤ 1)
    (hplans : ∀ planId,
      (tests.filter fun row => row.planId == planId && row.status.isActive).length ≤ 1) :
    Sound p base ids held { db with tests } :=
  { h with testKeys := hkeys, exclusive := hexclusive, plans := hplans,
           since := ⟨h.since.kept, h.since.leased⟩ }

/-- An update of tests that starts none, and puts none in the queue. -/
theorem updateTests (h : Sound p base ids held db) {cond : RecoveryTest → Bool}
    {set : RecoveryTest → RecoveryTest}
    (hkey : ∀ row, (set row).id = row.id ∧ (set row).planId = row.planId)
    (hrunning : ∀ row, cond row = true → (set row).status = .running → row.status = .running)
    (hactive : ∀ row, cond row = true → (set row).status.isActive = true →
      row.status.isActive = true) :
    Sound p base ids held { db with tests := Table.update db.tests cond set } := by
  refine h.tests (Table.nodup_update (fun row => (hkey row).1) h.testKeys) ?_ fun planId => ?_
  · have hle : ((Table.update db.tests cond set).filter (·.status == .running)).length ≤
        (db.tests.filter (·.status == .running)).length :=
      Table.length_filter_update_le fun row _ hcond hset =>
        beq_iff_eq.mpr (hrunning row hcond (beq_iff_eq.mp hset))
    have hbefore := h.exclusive
    simp only [Db.working] at hbefore ⊢
    omega
  · refine Nat.le_trans (Table.length_filter_update_le fun row _ hcond hset => ?_) (h.plans planId)
    rw [Bool.and_eq_true, (hkey row).2] at hset
    exact Bool.and_eq_true_iff.mpr ⟨hset.1, hactive row hcond hset.2⟩

theorem enqueue (h : Sound p base ids held db) (bound : Bool) (row : RecoveryTest) :
    Sound p base ids held (db.enqueue bound row) := by
  unfold Db.enqueue
  split
  · exact h
  · next hbound =>
    split
    · exact h
    · split
      · exact h
      · next hactive =>
        have hnew : ∀ other ∈ db.tests, other.id ≠ row.id := by
          simpa using fun hany => hbound (.inr hany)
        refine h.tests ?_ ?_ fun planId => ?_
        · rw [List.map_append, List.nodup_append]
          refine ⟨h.testKeys, List.nodup_singleton _, fun id hid other hother heq => ?_⟩
          obtain ⟨test, htest, rfl⟩ := List.mem_map.mp hid
          exact hnew test htest (heq.trans (List.mem_singleton.mp hother))
        · have hbefore := h.exclusive
          simp only [Db.working] at hbefore ⊢
          simpa using hbefore
        · rw [List.filter_append, List.length_append]
          have hbefore := h.plans planId
          by_cases hplan : row.planId = planId
          · -- No other test of the plan is active.
            have hnone : db.tests.filter (fun other =>
                other.planId == planId && other.status.isActive) = [] := by
              refine List.filter_eq_nil_iff.mpr fun other hother hboth => hactive ?_
              exact List.any_eq_true.mpr ⟨other, hother, hplan ▸ hboth⟩
            rw [hnone]
            exact Nat.le_trans (Nat.add_le_add_left (List.length_filter_le _ _) _) (Nat.le_refl 1)
          · rw [List.filter_cons_of_neg (by simp [hplan])]
            exact hbefore

theorem claimTest (h : Sound p base ids held db) (elsewhere pendingInternal : Bool) :
    Sound p base ids held (db.claimTest elsewhere pendingInternal) := by
  unfold Db.claimTest
  split
  · exact h
  · next hidle =>
    simp only [not_or, Bool.not_eq_true, List.any_eq_false, beq_iff_eq] at hidle
    split
    · exact h
    · next row hfirst =>
      refine h.tests (Table.nodup_update (fun _ => rfl) h.testKeys) ?_ fun planId => ?_
      · -- Nothing is at work, and one test is started.
        have hone :
            ((Table.update db.tests (fun other => other.id == row.id && other.status == .queued)
            fun row => { row with status := .running }).filter (·.status == .running)).length ≤ 1 :=
          Table.length_filter_update_key h.testKeys
            (fun other _ hcond => beq_iff_eq.mp (Bool.and_eq_true_iff.mp hcond).1)
            fun other hother => beq_eq_false_iff_ne.mpr (hidle.1 other hother)
        have hnone : db.restores.filter (·.status.isWorking) = [] :=
          List.filter_eq_nil_iff.mpr fun other hother => by simp [hidle.2.1 other hother]
        simp only [Db.working, hnone, List.length_nil]
        exact hone
      · refine Nat.le_trans (Table.length_filter_update_le fun other _ hcond hset =>
          ?_) (h.plans planId)
        obtain ⟨hplan, -⟩ := Bool.and_eq_true_iff.mp hset
        have hqueued : other.status = .queued := beq_iff_eq.mp (Bool.and_eq_true_iff.mp hcond).2
        exact Bool.and_eq_true_iff.mpr ⟨hplan, by rw [hqueued]; rfl⟩

theorem requestCancellation (h : Sound p base ids held db) (id : String) :
    Sound p base ids held (db.requestCancellation id) := by
  refine h.updateTests (fun _ => ⟨rfl, rfl⟩) (fun row _ hset => ?_) fun row hcond _ =>
    (Bool.and_eq_true_iff.mp hcond).2
  by_cases hqueued : row.status = .queued
  · simp [hqueued] at hset
  · simpa [hqueued] using hset

theorem interrupted (h : Sound p base ids held db) : Sound p base ids held db.interrupted := by
  refine h.updateTests (fun _ => ⟨rfl, rfl⟩) (fun row hcond _ =>
    beq_iff_eq.mp hcond) fun row hcond _ => ?_
  rw [beq_iff_eq.mp hcond]
  rfl

theorem finishTest (h : Sound p base ids held db) (id : String) (status : TestStatus) :
    Sound p base ids held (db.finishTest id status) := by
  unfold Db.finishTest
  split
  · exact h
  · next hover =>
    refine h.updateTests (fun _ => ⟨rfl, rfl⟩) (fun row _ hset => ?_) fun row _ hset =>
      absurd hset hover
    rw [show status = .running from hset] at hover
    exact absurd rfl hover

end Sound

/-! ## Operations on a row that is relied on -/

theorem not_working_of_not_busy {elsewhere : Bool} (h : Sound p base ids held db)
    (hbusy : db.busy elsewhere = false) :
    (∀ row ∈ db.tests, row.status ≠ .running) ∧ ∀ row ∈ db.restores,
      row.status.isWorking = false := by
  simp only [Db.busy, Bool.or_eq_false_iff, List.any_eq_false, Bool.and_eq_true, bne_iff_ne,
    beq_iff_eq] at hbusy
  refine ⟨hbusy.1.1, fun row hrow => ?_⟩
  have hnot := hbusy.1.2 row hrow
  cases hworking : row.status.isWorking with
  | false => rfl
  | true => exact absurd ⟨hworking, h.named row hrow⟩ hnot

variable {others : List String} {row : Restore} {set : Restore → Restore} {E : String → Db → Prop}

theorem wp_updated (h : Sound p base ids held db) (hid : ∀ row, (set row).id = row.id)
    (hset : ∀ stored ∈ db.restores, stored.id = row.id → Change p held stored (set stored)) :
    wp (updated row set) (fun row' db' => row'.id = row.id ∧ Sound p base ids held db') E db := by
  have hsound : Sound p base ids held (db.update row.id set) :=
    h.change hid fun stored hstored hcond => hset stored hstored (beq_iff_eq.mp hcond)
  show (((db.update row.id set).get row.id).getD row).id = row.id ∧
      Sound p base ids held (db.update row.id set)
  refine ⟨?_, hsound⟩
  cases hget : (db.update row.id set).get row.id with
  | none => rfl
  | some stored => exact (hsound.get_eq_some.mp hget).2

theorem Sound.stored_live (h : Sound p base (id :: others) held db) {stored : Restore}
    (hstored : stored ∈ db.restores) (hid : stored.id = id) : stored.status ≠ .deleted :=
  h.live stored hstored (hid ▸ List.mem_cons_self)

/-- A row that is relied on is made removable. -/
theorem wp_updated_removable (h : Sound p base (row.id :: others) held db)
    (hid : ∀ row, (set row).id = row.id)
    (hset : ∀ stored : Restore, (set stored).status.isRemovable = true) :
    wp (updated row set) (fun row' db' =>
      row'.id = row.id ∧ Sound p base (row.id :: others) held db') E db :=
  wp_updated h hid fun stored hstored hkey => ⟨.inl ⟨h.stored_live hstored hkey, hset stored⟩⟩

theorem wp_finishDeleted (h : Sound p base (id :: others) held db) (hid : id ∉ others) :
    wp (finishDeleted id) (fun _ => Sound p base others held)
      (fun _ => Sound p base (id :: others) held) db := by
  unfold finishDeleted
  rw [wp_bind, wp_get, wp_bind, wp_refuseIf]
  refine ⟨fun _ => h, fun hlease => ?_⟩
  have hnone : ∀ lease ∈ db.leases, lease.restoreId ≠ id := by
    intro lease hmem heq
    rw [Option.isSome_eq_false_iff, Option.isNone_iff_eq_none, Db.lease,
      List.find?_eq_none] at hlease
    exact hlease lease hmem (beq_iff_eq.mpr heq)
  refine h.rewrite (fun _ => rfl) (h.working_le fun row _ _ hworking => by cases hworking)
    (fun row hrow hcond => ?_)
    h.present fun row hrow hcond => ⟨fun hmem => List.mem_cons_of_mem _ hmem, fun hmem => hmem⟩
  have hkey : row.id = id := beq_iff_eq.mp hcond
  exact
    { kept := fun _ => rfl
      unleased := fun _ => .inr (hkey ▸ hnone)
      live := fun hmem => absurd (hkey ▸ hmem) hid
      begun := fun _ => rfl
      deletable := fun _ _ => rfl }

/-- One row is taken to work where nothing is. -/
theorem Sound.start (h : Sound p base (id :: others) [] db) {elsewhere : Bool}
    (hbusy : db.busy elsewhere = false) (hexists : ∃ row ∈ db.restores, row.id = id)
    (hid : ∀ row, (set row).id = row.id)
    (hset : ∀ row : Restore, (set row).status.isWorking = true) :
    Sound p base (id :: others) [id] (db.update id set) := by
  obtain ⟨htests, hrestores⟩ := not_working_of_not_busy h hbusy
  refine h.rewrite hid ?_ (fun row hrow hcond => ?_) (fun other hother =>
    List.mem_singleton.mp hother ▸ hexists)
    fun row hrow hcond => ⟨fun hmem => hmem, fun hmem => ?_⟩
  · have hnone : db.tests.filter (·.status == .running) = [] :=
      List.filter_eq_nil_iff.mpr fun row hrow => by simp [htests row hrow]
    have hone :
        ((Table.update db.restores (·.id == id) set).filter (·.status.isWorking)).length ≤ 1 :=
      Table.length_filter_update_key h.keys (fun row _ hcond => beq_iff_eq.mp hcond) hrestores
    simp only [Db.working, hnone, List.length_nil, Nat.zero_add]
    exact hone
  · have hnot : (set row).status ≠ .deleted := by
      intro hdeleted
      have hworking := hset row
      rw [hdeleted] at hworking
      cases hworking
    exact
      { kept := fun hdeleted => absurd hdeleted (h.stored_live hrow (beq_iff_eq.mp hcond))
        unleased := fun hdeleted => absurd hdeleted hnot
        live := fun _ => hnot
        begun := fun _ => not_isWaiting_of_isWorking (hset row)
        deletable := fun _ _ => not_isWaiting_of_isWorking (hset row) }
  · rw [List.mem_singleton.mp hmem, beq_self_eq_true] at hcond
    cases hcond

theorem wp_claim (h : Sound p base (id :: others) [] db) (now : Nat) (elsewhere cleanup : Bool) :
    wp (claim now elsewhere id cleanup)
      (fun claimed db' => match claimed with
        | some row => row.id = id ∧ Sound p base (id :: others) [id] db'
        | none => Sound p base (id :: others) [] db') E db := by
  -- A row that is updated to work is the answer of the claim.
  have hupdate : ∀ set : Restore → Restore, db.busy elsewhere = false →
      (∃ row ∈ db.restores, row.id = id) →
      (∀ row, (set row).id = row.id) → (∀ row : Restore, (set row).status.isWorking = true) →
      wp (update id set) (fun claimed db' => match claimed with
        | some row => row.id = id ∧ Sound p base (id :: others) [id] db'
        | none => Sound p base (id :: others) [] db') E db := by
    intro set hbusy hexists hid hset
    have hstart := h.start hbusy hexists hid hset
    show match (db.update id set).get id with
      | some row => row.id = id ∧ Sound p base (id :: others) [id] (db.update id set)
      | none => Sound p base (id :: others) [] (db.update id set)
    split
    · next row hget => exact ⟨(hstart.get_eq_some.mp hget).2, hstart⟩
    · exact hstart.mono (List.Subset.refl _) (List.nil_subset _)
  unfold claim
  rw [wp_bind, wp_get]
  cases hbusy : db.busy elsewhere with
  | true => exact h
  | false =>
      simp only [Bool.false_eq_true, if_false]
      cases hget : db.get id with
      | none => exact h
      | some row =>
          have hexists : ∃ row ∈ db.restores, row.id = id := ⟨row, h.get_eq_some.mp hget⟩
          simp only
          rw [wp_ite]
          refine ⟨fun _ => ?_, fun _ => ?_⟩
          · rw [wp_ite]
            exact ⟨fun _ => hupdate _ hbusy hexists (fun _ => rfl) fun _ => rfl, fun _ => h⟩
          · rw [wp_ite]
            exact ⟨fun _ => hupdate _ hbusy hexists (fun _ => rfl) fun _ => rfl, fun _ => h⟩

/-- A binding changes nothing that the tables are in order by, nor the requests for a deletion. -/
theorem wp_bindApproval (h : Sound p base ids held db) (approval : Approval) :
    wp (bindApproval id approval)
      (fun _ db' => Sound p base ids held db' ∧ ∀ row' ∈ db'.restores, ∃ row ∈ db.restores,
        row'.id = row.id ∧ row'.cancelRequested = row.cancelRequested)
      (fun _ => Sound p base ids held) db := by
  unfold bindApproval
  rw [wp_bind, wp_get]
  cases db.get id with
  | none => exact h
  | some row =>
      simp only
      rw [wp_bind, wp_refuseIf]
      refine ⟨fun _ => h, fun _ => ?_⟩
      rw [wp_bind, wp_refuseIf]
      refine ⟨fun _ => h, fun _ => ?_⟩
      rw [wp_modify]
      constructor
      · refine h.change (fun row => ?_) fun row _ _ => ⟨.inr (.inl ⟨?_, .inl ?_⟩)⟩ <;> split <;> rfl
      · intro row' hrow'
        obtain ⟨row, hrow, heq⟩ := Table.mem_update.mp hrow'
        refine ⟨row, hrow, ?_⟩
        rw [← heq]
        split
        · split <;> exact ⟨rfl, rfl⟩
        · exact ⟨rfl, rfl⟩

/-- A lease is added to the row, which is being imported. -/
theorem Sound.addLease (h : Sound p db ids held db) (lease : Lease) (hid : lease.restoreId ∈ ids)
    (himporting : ∃ row ∈ db.restores, row.id = lease.restoreId ∧ row.status = .importing) :
    Sound p db ids held { db with leases := db.leases ++ [lease] } :=
  { h with
    unleased := by
      intro row hrow hdeleted other hother
      rcases List.mem_append.mp hother with hold | hnew
      · exact h.unleased row hrow hdeleted other hold
      · rw [List.mem_singleton.mp hnew]
        intro heq
        exact h.live row hrow (heq ▸ hid) hdeleted
    since := {
      kept := h.since.kept
      leased := by
        intro other hother
        rcases List.mem_append.mp hother with hold | hnew
        · exact h.since.leased other hold
        · rw [List.mem_singleton.mp hnew]
          exact .inr himporting } }

theorem wp_addLease (h : Sound p db (row.id :: others) held db) (database : String) :
    wp (addLease (row.importLease database)) (fun _ => Sound p db (row.id :: others) held)
      (fun _ => Sound p db (row.id :: others) held) db := by
  unfold DatabaseRestore.addLease
  rw [wp_bind, wp_get]
  cases hget : db.get (row.importLease database).restoreId with
  | none => exact h
  | some stored =>
      obtain ⟨hstored, hid⟩ := h.get_eq_some.mp hget
      simp only
      rw [wp_bind, wp_get, wp_bind, wp_refuseIf]
      refine ⟨fun _ => h, fun hok => ?_⟩
      have himporting : stored.status = .importing := by
        simp only [Bool.or_eq_false_iff, bne_eq_false_iff_eq] at hok
        exact hok.1.2
      rw [wp_modify]
      have hlease :=
        h.addLease (row.importLease database) List.mem_cons_self ⟨stored, hstored, hid, himporting⟩
      exact hlease.change (fun _ => rfl) fun _ _ _ => ⟨.inr (.inl ⟨rfl, .inl rfl⟩)⟩

theorem wp_create (h : Sound p base ids held db) (admitted : Bool) (hname : row.id ≠ "")
    (hstatus : row.status.isWaiting = true) (hcancel : row.cancelRequested = false) :
    wp (create admitted row) (fun _ => Sound p base ids held)
      (fun _ => Sound p base ids held) db := by
  unfold create
  rw [wp_bind, wp_get, wp_bind, wp_refuseIf]
  refine ⟨fun _ => h, fun _ => ?_⟩
  rw [wp_bind, wp_refuseIf]
  refine ⟨fun _ => h, fun hroom => ?_⟩
  rw [wp_bind, wp_refuseIf]
  refine ⟨fun _ => h, fun hfree => ?_⟩
  rw [wp_modify]
  -- the id is new, and a row that waits is neither deleted nor worked on
  have hnew : ∀ other ∈ db.restores, other.id ≠ row.id := by
    intro other hother heq
    have hnot := List.any_eq_false.mp hfree other hother
    rw [heq, beq_self_eq_true, Bool.true_or] at hnot
    exact hnot rfl
  have hopen : row.status ≠ .deleted ∧ row.status.isWorking = false := by
    cases hrow : row.status <;> rw [hrow] at hstatus <;>
      first | exact ⟨by decide, rfl⟩ | cases hstatus
  refine
    { testKeys := h.testKeys
      plans := h.plans
      keys := ?_
      named := ?_
      exclusive := ?_
      retained := ?_
      unleased := ?_
      live := ?_
      begun := ?_
      present := ?_
      deletable := ?_
      since := ⟨fun old hold hdeleted => ?_, h.since.leased⟩ }
  · rw [List.map_append, List.nodup_append]
    refine ⟨h.keys, List.nodup_singleton _, fun id hid other hother heq => ?_⟩
    obtain ⟨old, hold, rfl⟩ := List.mem_map.mp hid
    exact hnew old hold (heq.trans (List.mem_singleton.mp hother))
  · exact List.forall_mem_append.mpr ⟨h.named, List.forall_mem_singleton.mpr hname⟩
  · have hbefore := h.exclusive
    simp only [Db.working] at hbefore ⊢
    simpa [List.filter_append, hopen.2] using hbefore
  · rw [List.filter_append, List.length_append]
    have hlt : (db.restores.filter (·.status != .deleted)).length < 8 := by simpa using hroom
    exact Nat.le_trans (Nat.add_le_add_left (List.length_filter_le _ _) _) hlt
  · exact List.forall_mem_append.mpr ⟨h.unleased,
      List.forall_mem_singleton.mpr fun hdeleted => absurd hdeleted hopen.1⟩
  · exact List.forall_mem_append.mpr ⟨h.live, List.forall_mem_singleton.mpr fun _ => hopen.1⟩
  · refine List.forall_mem_append.mpr ⟨h.begun, List.forall_mem_singleton.mpr fun hmem => ?_⟩
    obtain ⟨old, hold, heq⟩ := h.present row.id hmem
    exact absurd heq (hnew old hold)
  · intro id hmem
    obtain ⟨old, hold, heq⟩ := h.present id hmem
    exact ⟨old, List.mem_append_left _ hold, heq⟩
  · refine fun hp => List.forall_mem_append.mpr ⟨h.deletable hp,
      List.forall_mem_singleton.mpr fun hflag => ?_⟩
    rw [hcancel] at hflag
    cases hflag
  · obtain ⟨old', hold', heq⟩ := h.since.kept old hold hdeleted
    exact ⟨old', List.mem_append_left _ hold', heq⟩

end Pluton.DatabaseRestore
