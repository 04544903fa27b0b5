-- SUMMARY: When a requested deletion of a restore can always proceed, over all orders.
import Pluton.DatabaseRestore.Exclusion

/-!
# A requested deletion can proceed

The dispatcher queues a provisioned restore from the row it has read before it awaited the
binding and the admission. Where the deletion is requested in between, the restore ends up
queued and cancelled, which no claim takes.
-/
namespace Pluton.DatabaseRestore

open EStateM

/-- A restore whose deletion was requested, and that is not deleted, at work or left to the
operator, is claimed for its cleanup when nothing is busy. -/
def DeletionsProceed (db : Db) : Prop :=
  ∀ row ∈ db.restores, row.cancelRequested = true → row.status ≠ .deleted →
    row.status.isWorking = false →
    row.cleanup ≠ .infrastructurePending → ∀ now elsewhere, db.busy elsewhere = false →
      ∃ claimed db', claim now elsewhere row.id true db = .ok (some claimed) db' ∧
        claimed.status = .deleting

/-- The dispatcher does not queue a restore whose deletion was requested. -/
def World.guarded (s : World) : Label → Bool
  | .resumeDispatch a =>
      match s.dispatch with
      | some (.admission row approval, _) =>
          !(queues a row approval s.db && (s.db.get row.id).any (·.cancelRequested))
      | _ => true
  | _ => true

variable {p : Prop} {base : Db} {s : World} {label : Label} {db : Db} {ids held : List String}

theorem Inv.open_of_guarded (h : Inv p base s) (hguarded : s.guarded label = true) :
    s.Open label := by
  cases label with
  | resumeDispatch a =>
      intro place rows hdispatch row approval hplace hqueues stored hstored hid
      subst hplace
      have hget : s.db.get row.id = some stored := h.sound.get_eq_some.mpr ⟨hstored, hid⟩
      simpa [World.guarded, hdispatch, hqueues, hget] using hguarded
  | _ => exact True.intro

/-- The statuses apart from those at work: removable, waiting, or deleted. -/
theorem isRemovable_of_not {status : Status} (hlive : status ≠ .deleted)
    (hworking : status.isWorking = false) (hwaiting : status.isWaiting = false) :
    status.isRemovable = true := by
  cases status with
  | provisioningRequired | queued => cases hwaiting
  | importing | deleting => cases hworking
  | deleted => exact absurd rfl hlive
  | active | stopped | expired | cleanupRequired | failed | cancelled => rfl

theorem Sound.claim_cleanup (h : Sound p base ids held db) {row : Restore}
    (hrow : row ∈ db.restores) (hcancel : row.cancelRequested = true)
    (hremovable : row.status.isRemovable = true) (now : Nat) {elsewhere : Bool}
    (hbusy : db.busy elsewhere = false) :
    ∃ claimed db', claim now elsewhere row.id true db = .ok (some claimed) db' ∧
      claimed.status = .deleting := by
  let set : Restore → Restore := ({ · with status := .deleting, stage := "database-cleanup" })
  have hget : db.get row.id = some row := h.get_eq_some.mpr ⟨hrow, rfl⟩
  have hmem : set row ∈ (db.update row.id set).restores :=
    Table.mem_update.mpr ⟨row, hrow, if_pos (beq_self_eq_true row.id)⟩
  have hkeys : ((Table.update db.restores (·.id == row.id) set).map Restore.id).Nodup :=
    Table.nodup_update (fun _ => rfl) h.keys
  have hclaimed : (db.update row.id set).get row.id = some (set row) := Table.find?_key hkeys hmem
  refine ⟨set row, db.update row.id set, ?_, rfl⟩
  have hclaim : claim now elsewhere row.id true db = update row.id set db := by
    have hread : (EStateM.get db : EStateM.Result String Db Db) = .ok db db := rfl
    simp [claim, bind, EStateM.bind, get, getThe, MonadStateOf.get, hread, hbusy, hget,
      hremovable, hcancel, set]
  rw [hclaim]
  show EStateM.Result.ok ((db.update row.id set).get row.id) (db.update row.id set) = _
  rw [hclaimed]

theorem Sound.deletionsProceed (h : Sound True base ids held db) : DeletionsProceed db := by
  intro row hrow hcancel hlive hworking _ now elsewhere hbusy
  have hwaiting := h.deletable True.intro row hrow hcancel
  exact h.claim_cleanup hrow hcancel (isRemovable_of_not hlive hworking hwaiting) now hbusy

/-- As long as no restore is queued whose deletion was requested, every
requested deletion can proceed. -/
theorem requested_deletion_proceeds (labels : List Label)
    (hok : Run.Along World.step (fun s label => s.guarded label = true) {} labels) :
    DeletionsProceed (labels.foldl World.step {}).db := by
  have hkeep : ∀ s label, s.guarded label = true → (∃ base, Inv True base s) →
      ∃ base, Inv True base (World.step s label) :=
    fun s _ hguarded ⟨_, h⟩ => ⟨s.db, h.step fun _ => h.open_of_guarded hguarded⟩
  obtain ⟨base, h⟩ := hok.invariant hkeep ⟨{}, inv_empty⟩
  exact h.sound.deletionsProceed

/-! ## Runs -/

/-- A restore on a target that its operator provisions. -/
def report : Restore :=
  { id := "r1", mode := .internal, targetId := "", ownerToken := "t1", status := .queued,
    stage := "", createdAt := 0,
    expiresAt := 3600 }

def reportAnswers : Answers :=
  { approval := { id := "r1", mode := .internal, fingerprint := "f1" } }

/-- The dispatcher waits for the binding of the target, and the deletion is
requested; the binding is refused. -/
def bindingRefused : List Label :=
  [.create report true {}, .tick {}, .delete "r1", .resumeDispatch { resolved := false }]

theorem requested_deletion_proceeds_refused :
    DeletionsProceed (bindingRefused.foldl World.step {}).db :=
  requested_deletion_proceeds bindingRefused (by decide +kernel)

/-- The binding is stored after the deletion was requested. -/
def bindingStored : List Label :=
  [.create report true {}, .tick {}, .delete "r1", .resumeDispatch reportAnswers,
    .resumeDispatch reportAnswers]

/-- The next dispatch, which asks for the state of the target and for its binding. -/
def nextDispatch : List Label :=
  [.tick reportAnswers, .resumeDispatch reportAnswers, .resumeDispatch reportAnswers]

/-- The answer of a claim that took nothing. -/
def unclaimed : EStateM.Result String Db (Option Restore) → Bool
  | .ok none _ => true
  | _ => false

/-- The restore is queued with its deletion requested: no dispatch claims it. -/
theorem requested_deletion_stuck :
    (bindingStored.foldl World.step {}).db.restores =
      [{ report with
          targetId := "r1", targetFingerprint := some "f1",
          encryptedApproval := true, status := .queued,
          stage := "operator-provisioning", cleanup := .requested, cancelRequested := true }] ∧
    ((bindingStored ++ nextDispatch).foldl World.step {}) = bindingStored.foldl World.step {} ∧
    ¬ DeletionsProceed (bindingStored.foldl World.step {}).db := by
  have hrestores : (bindingStored.foldl World.step {}).db.restores =
      [{ report with
          targetId := "r1", targetFingerprint := some "f1",
          encryptedApproval := true, status := .queued,
          stage := "operator-provisioning", cleanup := .requested, cancelRequested := true }] := by
    decide +kernel
  refine ⟨hrestores, by decide +kernel, fun h => ?_⟩
  obtain ⟨claimed, db', hclaim, -⟩ :=
    h _ (hrestores ▸ List.mem_cons_self) rfl (by decide) rfl (by decide) 0 false
    (by decide +kernel)
  have hnone : unclaimed (claim 0 false "r1" true (bindingStored.foldl World.step {}).db) =
      true := by decide +kernel
  rw [show claim 0 false "r1" true (bindingStored.foldl World.step {}).db = _ from hclaim] at hnone
  cases hnone

end Pluton.DatabaseRestore
